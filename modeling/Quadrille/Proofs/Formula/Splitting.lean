import Quadrille.Proofs.Formula.Conservation

/-!
# Splitting a text into tokens

The scanner collects operand characters until something else comes, and what has been collected is
easily lost or put out twice at that point. What it should come to can be said without a scanner:
the tokens are written one after the other, operands are not empty, and no two of them are side by
side (`Token.Splits`). There is one such split at most, since an operand that ended any earlier
would stand beside the next. So the scanner is right if what it returns is a split
(`Token.splits_of_scan`), and it finds the split if there is one (`Token.scan_of_splits`).

Blanks are dropped before the scanner sees the text. Hence all that is read of a formula, complaints
included, is read of the text without its blanks.

## Main definitions

* `Token.stripped` — a text without its blanks
* `Token.Splits` — the tokens that a text is made of

## Main results

* `Token.scan_eq_ok_iff`, `Token.Splits.unique` — the scanner finds the only split
* `Token.ofText_splits` — what is read of a formula, and what it depends on
-/

namespace Quadrille

namespace Token

/-- The characters of a text that are not blank. -/
def stripped (s : String) : List Char :=
  s.toList.filter fun c => !Text.isBlank c

/-- The tokens that a text is made of: written one after the other they are the text, operands are
runs of letters, digits and points, at least one of them, and no operand is followed by another. -/
structure Splits (cs : List Char) (ts : List Token) : Prop where
  chars : ts.flatMap Token.chars = cs
  operands : ∀ text ∈ operands ts,
    text.toList ≠ [] ∧ ∀ c ∈ text.toList, c.isAlphanum = true ∨ c = '.'
  apart : ts.IsChain fun t u => t.operand? = none ∨ u.operand? = none

variable {cs pending : List Char} {ts us : List Token} {c : Char} {t : Token}

/-! ### The scanner finds a split -/

theorem splits_nil : Splits [] [] :=
  ⟨rfl, by simp [Token.operands], .nil⟩

/-- A token that is no operand may stand in front of any split. -/
theorem Splits.cons_mark (h : Splits cs ts) (ht : t.operand? = none) :
    Splits (t.chars ++ cs) (t :: ts) := by
  refine ⟨?_, ?_, ?_⟩
  · rw [List.flatMap_cons, h.chars]
  · rw [Token.operands, List.filterMap_cons_none ht]
    exact h.operands
  · exact List.isChain_cons.mpr ⟨fun u _ => Or.inl ht, h.apart⟩

/-- An operand may stand in front of a split that does not begin with another. -/
theorem Splits.cons_operand (h : Splits cs ts) (o : Operand)
    (hts : ∀ u ∈ ts.head?, u.operand? = none) :
    Splits (o.text.toList ++ cs) (.operand o.text :: ts) := by
  refine ⟨?_, ?_, ?_⟩
  · rw [List.flatMap_cons, h.chars, Token.chars]
  · have hoperands : Token.operands (.operand o.text :: ts) = o.text :: Token.operands ts := rfl
    rw [hoperands, List.forall_mem_cons]
    exact ⟨⟨o.nonempty, o.allowed⟩, h.operands⟩
  · exact List.isChain_cons.mpr ⟨fun u hu => Or.inr (hts u hu), h.apart⟩

/-- What has been collected is put in front of a split that does not begin with an operand. -/
theorem Splits.ofPending_append (h : Splits cs ts) (hts : ∀ u ∈ ts.head?, u.operand? = none)
    (hpending : ∀ c ∈ pending, isOperandChar c = true) :
    Splits (pending.reverse ++ cs) (ofPending pending ++ ts) := by
  cases pending with
  | nil => exact h
  | cons c pending =>
    have hne : (String.ofList (c :: pending).reverse).toList ≠ [] := by simp
    have hallowed : ∀ d ∈ (String.ofList (c :: pending).reverse).toList,
        d.isAlphanum = true ∨ d = '.' := by
      intro d hd
      rw [String.toList_ofList, List.mem_reverse] at hd
      simpa [isOperandChar] using hpending d hd
    have hwhole := h.cons_operand ⟨_, hne, hallowed⟩ hts
    rwa [String.toList_ofList] at hwhole

/-- A character that is a token by itself is written as it stands, and is no part of an operand. -/
theorem mark_of_ofChar (h : ofChar c = .ok t) : t.chars = [c] ∧ t.operand? = none := by
  obtain ⟨rfl, rfl⟩ | ⟨rfl, rfl⟩ | ⟨op, rfl, rfl⟩ := ofChar_eq_ok_iff.mp h <;> exact ⟨rfl, rfl⟩

/-- **What the scanner returns is a split** of what it had collected and what it was given. -/
theorem splits_of_scan (h : scan pending cs = .ok ts)
    (hpending : ∀ c ∈ pending, isOperandChar c = true) : Splits (pending.reverse ++ cs) ts := by
  induction cs generalizing pending ts with
  | nil =>
    obtain rfl := Except.ok.inj h
    rw [← List.append_nil (ofPending pending)]
    exact splits_nil.ofPending_append (by simp) hpending
  | cons c cs ih =>
    rcases scan_cons_eq_ok_iff.mp h with ⟨hc, h⟩ | ⟨-, t, us, ht, hus, rfl⟩
    · have hcollected := ih h (List.forall_mem_cons.mpr ⟨hc, hpending⟩)
      rwa [List.reverse_cons, List.append_assoc, List.singleton_append] at hcollected
    · obtain ⟨hchars, hmark⟩ := mark_of_ofChar ht
      have hrest : Splits (c :: cs) (t :: us) := by
        have hus := (ih hus (by simp)).cons_mark hmark
        rwa [hchars] at hus
      exact hrest.ofPending_append (by simpa using hmark) hpending

/-! ### The split is found -/

/-- A token that is no operand is written as one character, and that is not an operand's. -/
theorem exists_ofChar_of_mark (ht : t.operand? = none) :
    ∃ c, t.chars = [c] ∧ isOperandChar c = false ∧ ofChar c = .ok t := by
  cases t with
  | operand text => simp [operand?] at ht
  | operator op => exact ⟨op.symbol, rfl, isOperandChar_symbol op, ofChar_symbol op⟩
  | leftParen => exact ⟨'(', rfl, by decide, rfl⟩
  | rightParen => exact ⟨')', rfl, by decide, rfl⟩

/-- An operand that stands before a split ends there, unless the split begins with another. -/
theorem Splits.endsOperand (h : Splits cs ts) (hts : ∀ u ∈ ts.head?, u.operand? = none) :
    EndsOperand cs := by
  cases ts with
  | nil =>
    obtain rfl : [] = cs := h.chars
    simp [EndsOperand]
  | cons u us =>
    obtain ⟨c, hchars, hc, -⟩ := exists_ofChar_of_mark (hts u rfl)
    have hcs := h.chars
    rw [List.flatMap_cons, hchars, List.singleton_append] at hcs
    rw [← hcs]
    exact endsOperand_cons.mpr hc

theorem Splits.tail (h : Splits cs (t :: ts)) : Splits (ts.flatMap Token.chars) ts := by
  refine ⟨rfl, fun text htext => h.operands text ?_, h.apart.tail⟩
  exact (List.sublist_cons_self t ts).filterMap operand? |>.subset htext

/-- **The scanner finds the split** that there is. -/
theorem scan_of_splits (h : Splits cs ts) : scan [] cs = .ok ts := by
  induction ts generalizing cs with
  | nil =>
    obtain rfl : [] = cs := h.chars
    rfl
  | cons t ts ih =>
    have hrest := ih h.tail
    obtain rfl : t.chars ++ ts.flatMap Token.chars = cs := h.chars
    cases ht : t.operand? with
    | none =>
      obtain ⟨c, hchars, hc, hchar⟩ := exists_ofChar_of_mark ht
      rw [hchars, List.singleton_append]
      exact scan_cons hc hchar hrest
    | some text =>
      obtain rfl : t = .operand text := by
        cases t <;> simp_all [operand?]
      obtain ⟨hne, hallowed⟩ := h.operands text (List.mem_filterMap.mpr ⟨_, List.mem_cons_self, ht⟩)
      have hnext : ∀ u ∈ ts.head?, u.operand? = none := fun u hu =>
        ((List.isChain_cons.mp h.apart).1 u hu).resolve_left (by simp [ht])
      exact scan_operand_append ⟨text, hne, hallowed⟩ (h.tail.endsOperand hnext) hrest

theorem scan_eq_ok_iff : scan [] cs = .ok ts ↔ Splits cs ts :=
  ⟨fun h => splits_of_scan h (by simp), scan_of_splits⟩

/-- **There is one split at most.** -/
theorem Splits.unique (h : Splits cs ts) (h' : Splits cs us) : ts = us :=
  Except.ok.inj ((scan_of_splits h).symm.trans (scan_of_splits h'))

/-! ### Formulas -/

theorem isAllBlank_eq (s : String) : Text.isAllBlank s = (stripped s).isEmpty := by
  rw [Bool.eq_iff_iff, List.isEmpty_iff, stripped, List.filter_eq_nil_iff, Text.isAllBlank,
    List.all_eq_true]
  simp

theorem ofText_eq_ok_iff {s : String} : ofText s = .ok ts ↔ Splits (stripped s) ts :=
  scan_eq_ok_iff

/-- Blanks do not matter to the tokens, nor to the complaint if there are none. -/
theorem ofText_congr {s s' : String} (h : stripped s = stripped s') : ofText s = ofText s' := by
  rw [ofText, ← stripped, h, stripped, ← ofText]

/-- **The tokens of a text** are the split of what is left of it without its blanks, and it has no
other. So whatever is made of the tokens later, complaints included, does not depend on the blanks.
If there is no split then a character belongs in no formula, and the first such character is
reported. -/
theorem ofText_splits :
    (∀ s ts, ofText s = .ok ts ↔ Splits (stripped s) ts) ∧
    (∀ cs ts us, Splits cs ts → Splits cs us → ts = us) ∧
    (∀ s s', stripped s = stripped s' →
      ofText s = ofText s' ∧ Postfix.ofText s = Postfix.ofText s' ∧
        Formula.ofText s = Formula.ofText s') ∧
    ∀ s e, ofText s = .error e ↔
      ∃ c, s.toList.find? (Foreign ·) = some c ∧ e = .unsupportedOperator c := by
  refine ⟨fun s ts => ofText_eq_ok_iff, fun cs ts us => Splits.unique, fun s s' h => ?_,
    fun s e => ofText_eq_error_iff⟩
  have htokens := ofText_congr h
  have hpostfix : Postfix.ofText s = Postfix.ofText s' := by
    rw [Postfix.ofText, htokens, ← Postfix.ofText]
  refine ⟨htokens, hpostfix, ?_⟩
  rw [Formula.ofText, isAllBlank_eq, h, ← isAllBlank_eq, hpostfix, ← Formula.ofText]

end Token

end Quadrille
