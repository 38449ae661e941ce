import Quadrille.Markup.Entity
import Quadrille.Proofs.Number.Digits
import Quadrille.Proofs.Text.Runs

/-!
# Texts and the ways to write them

A text can be written in markup in many ways: a character stands for itself, or is called by the
name of its entity, or given by its number in one of two bases, with any leading zeros. `Spells`
says which ways there are, without a scan. Each of them is read as the text. Escaping picks one of
them, in which no character is left that could begin a tag.

## Main definitions

* `WritesCode`, `Spells` — digits that write a number, and characters that write a text

## Main results

* `Spells.unescape?_eq` — however a text is written, it is read as the text
* `spells_escape` — escaping writes the text
-/

namespace Quadrille.Markup

/-- Whether digits, at least one of them, write a number in some base. -/
def WritesCode (base : Nat) (digits : List Char) (code : Nat) : Prop :=
  digits ≠ [] ∧ ∃ values : List Nat,
    List.Forall₂ (fun c d => Count.digitValue? base c = some d) digits values ∧
      values.foldl (fun n d => n * base + d) 0 = code

/-- The entities that have names. -/
def namedEntities : List (List Char × Char) :=
  [(['l', 't'], '<'), (['g', 't'], '>'), (['a', 'm', 'p'], '&'), (['a', 'p', 'o', 's'], '\''),
    (['q', 'u', 'o', 't'], '"')]

/-- Whether some characters write a text: every character of it as itself, unless it is the
ampersand, by the name of its entity, or by its number, which must not be zero. -/
inductive Spells : (raw text : List Char) → Prop where
  | nil : Spells [] []
  | plain {c : Char} {raw text : List Char} (hc : c ≠ '&') (rest : Spells raw text) :
      Spells (c :: raw) (c :: text)
  | named {name raw text : List Char} {c : Char} (h : (name, c) ∈ namedEntities)
      (rest : Spells raw text) : Spells ('&' :: (name ++ ';' :: raw)) (c :: text)
  | decimal {digits raw text : List Char} {c : Char} (h : WritesCode 10 digits c.toNat)
      (hc : c ≠ '\x00') (rest : Spells raw text) :
      Spells ('&' :: '#' :: (digits ++ ';' :: raw)) (c :: text)
  | hexadecimal {digits raw text : List Char} {c : Char} (h : WritesCode 16 digits c.toNat)
      (hc : c ≠ '\x00') (rest : Spells raw text) :
      Spells ('&' :: '#' :: 'x' :: (digits ++ ';' :: raw)) (c :: text)

/-! ### Numbers of characters -/

theorem WritesCode.readCode?_eq {base code : Nat} {digits : List Char}
    (h : WritesCode base digits code) (hbase : 0 < base) (hcode : code ≤ largestCode) :
    readCode? base digits = some code := by
  obtain ⟨hne, values, hdigits, rfl⟩ := h
  obtain ⟨c, cs, rfl⟩ := List.exists_cons_of_ne_nil hne
  rw [readCode?, Count.readDigits_of_forall₂ hbase hdigits hcode]
  · rfl
  · simp

theorem WritesCode.digitValue?_isSome {base code : Nat} {digits : List Char}
    (h : WritesCode base digits code) : ∀ c ∈ digits, (Count.digitValue? base c).isSome = true := by
  obtain ⟨-, values, hdigits, -⟩ := h
  intro c hc
  clear code
  induction hdigits with
  | nil => simp at hc
  | cons hd _ ih =>
    obtain rfl | hc := List.mem_cons.mp hc
    · rw [hd]
      rfl
    · exact ih hc

theorem toNat_le_largestCode (c : Char) : c.toNat ≤ largestCode :=
  Nat.le_of_lt_succ c.val.toNat_lt

theorem charOfCode?_toNat {c : Char} (hc : c ≠ '\x00') : charOfCode? c.toNat = some c := by
  have hcode : c.toNat ≠ 0 := fun h => hc (Char.ext (UInt32.toNat_inj.mp h))
  rw [charOfCode?, if_pos ⟨hcode, c.valid⟩, Char.ofNat_toNat]

theorem entity?_of_mem_namedEntities {name : List Char} {c : Char}
    (h : (name, c) ∈ namedEntities) : entity? name = some c := by
  simp only [namedEntities, List.mem_cons, Prod.mk.injEq, List.not_mem_nil, or_false] at h
  rcases h with ⟨rfl, rfl⟩ | ⟨rfl, rfl⟩ | ⟨rfl, rfl⟩ | ⟨rfl, rfl⟩ | ⟨rfl, rfl⟩ <;> rfl

theorem entity?_hexadecimal {digits : List Char} {c : Char} (h : WritesCode 16 digits c.toNat)
    (hc : c ≠ '\x00') : entity? ('#' :: 'x' :: digits) = some c := by
  change (readCode? 16 digits).bind charOfCode? = some c
  rw [h.readCode?_eq (by decide) (toNat_le_largestCode c), Option.bind_some, charOfCode?_toNat hc]

theorem entity?_decimal {digits : List Char} {c : Char} (h : WritesCode 10 digits c.toNat)
    (hc : c ≠ '\x00') : entity? ('#' :: digits) = some c := by
  have unmarked : ∀ rest, digits ≠ 'x' :: rest := by
    rintro rest rfl
    exact absurd (h.digitValue?_isSome 'x' List.mem_cons_self) (by decide)
  have number : entity? ('#' :: digits) = (readCode? 10 digits).bind charOfCode? := by
    unfold entity?
    split <;> simp_all
  rw [number, h.readCode?_eq (by decide) (toNat_le_largestCode c), Option.bind_some,
    charOfCode?_toNat hc]

/-! ### Reading -/

namespace Unescape

theorem run_cons (s : Unescape) (c : Char) (cs : List Char) : s.run (c :: cs) = (s.step c).run cs :=
  rfl

theorem run_entity (out : List Char) {name : List Char} {c : Char}
    (hname : ∀ d ∈ name, d ≠ ';' ∧ d ≠ '&') (h : entity? name = some c) (raw : List Char) :
    (plain out).run ('&' :: (name ++ ';' :: raw)) = (plain (c :: out)).run raw := by
  have inside : (inEntity out []).run name = inEntity out (name.reverse ++ []) := by
    refine foldl_collect (inEntity out) (fun d hd before => ?_) []
    simp [step, hname d hd]
  have closed : (inEntity out name.reverse).step ';' = plain (c :: out) := by
    simp [step, h]
  rw [run_cons, run_append, show (plain out).step '&' = inEntity out [] from rfl, inside,
    List.append_nil, run_cons, closed]

theorem run_spells {raw text : List Char} (h : Spells raw text) (out : List Char) :
    (plain out).run raw = plain (text.reverse ++ out) := by
  have digits : ∀ {base : Nat}, base = 10 ∨ base = 16 → ∀ {cs : List Char} {code : Nat},
      WritesCode base cs code → ∀ d ∈ cs, d ≠ ';' ∧ d ≠ '&' := by
    intro base hbase cs code hcs d hd
    have := hcs.digitValue?_isSome d hd
    refine ⟨?_, ?_⟩ <;> rintro rfl <;> obtain rfl | rfl := hbase <;> exact absurd this (by decide)
  induction h generalizing out with
  | nil => rfl
  | @plain c raw text hc _ ih =>
    rw [run_cons, show (plain out).step c = plain (c :: out) from if_neg hc, ih]
    simp
  | @named name raw text c hmem _ ih =>
    have hname : ∀ d ∈ name, d ≠ ';' ∧ d ≠ '&' := by
      have all : ∀ e ∈ namedEntities, ∀ d ∈ e.1, d ≠ ';' ∧ d ≠ '&' := by simp [namedEntities]
      exact all _ hmem
    rw [run_entity out hname (entity?_of_mem_namedEntities hmem), ih]
    simp
  | @decimal cs raw text c hcs hc _ ih =>
    have hname : ∀ d ∈ '#' :: cs, d ≠ ';' ∧ d ≠ '&' :=
      List.forall_mem_cons.mpr ⟨by decide, digits (.inl rfl) hcs⟩
    have read := run_entity out hname (entity?_decimal hcs hc) raw
    rw [List.cons_append] at read
    rw [read, ih]
    simp
  | @hexadecimal cs raw text c hcs hc _ ih =>
    have hname : ∀ d ∈ '#' :: 'x' :: cs, d ≠ ';' ∧ d ≠ '&' :=
      List.forall_mem_cons.mpr
        ⟨by decide, List.forall_mem_cons.mpr ⟨by decide, digits (.inr rfl) hcs⟩⟩
    have read := run_entity out hname (entity?_hexadecimal hcs hc) raw
    rw [List.cons_append, List.cons_append] at read
    rw [read, ih]
    simp

end Unescape

/-- **However a text is written,** it is read as the text. -/
theorem Spells.unescape?_eq {raw text : List Char} (h : Spells raw text) :
    unescape? raw = some text := by
  rw [unescape?, Unescape.run_spells h, List.append_nil, Unescape.finish?, List.reverse_reverse]

/-- What is written behind a text that has been read is read on its own. -/
theorem Spells.unescape?_append {before raw read text : List Char} (h : Spells raw text)
    (hbefore : unescape? before = some read) : unescape? (before ++ raw) = some (read ++ text) := by
  have plain : (Unescape.plain []).run before = .plain read.reverse := by
    rw [unescape?] at hbefore
    cases hrun : (Unescape.plain []).run before with
    | plain out =>
      rw [hrun] at hbefore
      obtain rfl := Option.some.inj hbefore
      rw [List.reverse_reverse]
    | inEntity out name => simp [hrun, Unescape.finish?] at hbefore
    | invalid => simp [hrun, Unescape.finish?] at hbefore
  rw [unescape?, Unescape.run_append, plain, Unescape.run_spells h, Unescape.finish?,
    List.reverse_append, List.reverse_reverse, List.reverse_reverse]

/-! ### Escaped texts -/

theorem spells_of_not_mem {text : List Char} (h : '&' ∉ text) : Spells text text := by
  induction text with
  | nil => exact .nil
  | cons c text ih =>
    rw [List.mem_cons, not_or] at h
    exact .plain (Ne.symm h.1) (ih h.2)

theorem Spells.append {raw raw' text text' : List Char} (h : Spells raw text)
    (h' : Spells raw' text') : Spells (raw ++ raw') (text ++ text') := by
  induction h with
  | nil => exact h'
  | plain hc _ ih => exact .plain hc ih
  | named hmem _ ih => simpa using Spells.named hmem ih
  | decimal hcs hc _ ih => simpa using Spells.decimal hcs hc ih
  | hexadecimal hcs hc _ ih => simpa using Spells.hexadecimal hcs hc ih

theorem spells_escapeChar (c : Char) : Spells (escapeChar c) [c] := by
  have entity (name : List Char) (h : (name, c) ∈ namedEntities) :
      Spells ('&' :: (name ++ [';'])) [c] := .named h .nil
  unfold escapeChar
  split
  case isTrue h => exact entity ['l', 't'] (by simp [h, namedEntities])
  split
  case isTrue h => exact entity ['g', 't'] (by simp [h, namedEntities])
  split
  case isTrue h => exact entity ['a', 'm', 'p'] (by simp [h, namedEntities])
  case isFalse hamp =>
    split
    case isTrue h => exact entity ['a', 'p', 'o', 's'] (by simp [h, namedEntities])
    split
    case isTrue h => exact entity ['q', 'u', 'o', 't'] (by simp [h, namedEntities])
    case isFalse => exact .plain hamp .nil

/-- **Escaping** writes the text, whatever its characters are. -/
theorem spells_escape (text : List Char) : Spells (escape text) text := by
  induction text with
  | nil => exact .nil
  | cons c text ih => exact (spells_escapeChar c).append ih

theorem not_mem_escapeChar (c : Char) : '<' ∉ escapeChar c := by
  by_cases h : c = '<'
  · subst h
    decide
  · unfold escapeChar
    repeat' split
    all_goals first | decide | simpa [eq_comm] using h

/-- Escaped text never looks like the beginning of a tag. -/
theorem not_mem_escape (cs : List Char) : '<' ∉ escape cs := by
  intro h
  obtain ⟨c, -, hc⟩ := List.mem_flatMap.mp h
  exact not_mem_escapeChar c hc

end Quadrille.Markup
