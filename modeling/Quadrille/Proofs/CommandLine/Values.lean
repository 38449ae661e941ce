import Quadrille.CommandLine.Run
import Quadrille.Proofs.Number.Digits

/-!
# Values on a command line

Options have words for values, and three readers make something of such a word: a count, the two
sides of an assignment, and a color. What they take is explained here by what the words look like,
not by how they are read.

A count stands between any blanks, in digits that may follow a plus sign. A color is the same, or it
is hexadecimal behind a mark, and the mark comes before the sign. In an assignment the first equals
sign counts, so that there may be others on the right.

## Main definitions

* `Options.WritesCount`, `Options.Assigns`, `CommandLine.SpellsColor` — what a word says

## Main results

* `Options.readCount_eq_ok_iff`, `Options.readCount_eq_error_iff`
* `Options.splitAssignment_eq_ok_iff`, `Options.splitAssignment_eq_error_iff`
* `CommandLine.readColor_eq_ok_iff`, `CommandLine.exists_of_readColor_eq_error`
-/

namespace Quadrille

namespace Options

variable {value name text : String} {n : Nat} {e : UsageError}

/-! ### Counts -/

/-- A word writes a count that fits a machine word: digits, at least one, with or without a plus
sign, and between any blanks. -/
def WritesCount (value : String) (n : Nat) : Prop :=
  ∃ plus ds, (plus = [] ∨ plus = ['+']) ∧ ds ≠ [] ∧
    Text.Padded (plus ++ Digits.toChars ds) value.toList ∧ Digits.value ds = n ∧ n ≤ Count.largest

/-- **Counts are read** from the words that write them. -/
theorem readCount_eq_ok_iff (flag : String) :
    readCount flag value = .ok n ↔ WritesCount value n := by
  have hread : readCount flag value = .ok n ↔
      Count.ofText? Count.largest (Text.trim value.toList) = some n := by
    rw [readCount]
    cases Count.ofText? Count.largest (Text.trim value.toList) <;> simp
  rw [hread, Count.ofText?_trim_eq_some_iff, WritesCount]

/-- The complaint about any other word shows it. -/
theorem readCount_eq_error_iff (flag : String) :
    readCount flag value = .error e ↔ (∀ n, ¬WritesCount value n) ∧ e = .notACount flag value := by
  simp only [← readCount_eq_ok_iff flag]
  rw [readCount]
  cases Count.ofText? Count.largest (Text.trim value.toList) <;> simp [eq_comm]

/-! ### Assignments -/

/-- A word assigns a text to a name: they are what stands before and behind the first equals sign,
but for blanks around the name. -/
def Assigns (value name text : String) : Prop :=
  ∃ before, '=' ∉ before ∧ Text.IsTrimOf name.toList before ∧
    value.toList = before ++ '=' :: text.toList

/-- **Assignments are split** at the first equals sign. -/
theorem splitAssignment_eq_ok_iff (flag : String) :
    splitAssignment flag value = .ok (name, text) ↔ Assigns value name text := by
  have hother : ∀ {before : List Char}, '=' ∉ before → ∀ c ∈ before, (c != '=') = true :=
    fun hbefore c hc => bne_iff_ne.mpr fun heq => hbefore (heq ▸ hc)
  constructor
  · intro h
    rw [splitAssignment] at h
    have hwhole := List.takeWhile_append_dropWhile (p := (· != '=')) (l := value.toList)
    have hstop := List.head?_dropWhile_not (· != '=') value.toList
    split at h
    · simp at h
    · next c rest hrest =>
      rw [hrest] at hwhole hstop
      obtain rfl : c = '=' := by simpa using hstop
      obtain ⟨rfl, rfl⟩ := Prod.mk.inj (Except.ok.inj h)
      refine ⟨value.toList.takeWhile (· != '='), fun hmem => ?_, ?_, ?_⟩
      · simpa using List.mem_takeWhile_imp hmem
      · rw [String.toList_ofList]
        exact Text.trim_eq_iff.mp rfl
      · rw [String.toList_ofList, hwhole]
  · rintro ⟨before, hbefore, hname, hvalue⟩
    rw [splitAssignment, hvalue, dropWhile_append_eq (hother hbefore) (by simp)]
    dsimp only
    rw [takeWhile_append_eq (hother hbefore) (by simp), Text.trim_eq_iff.mpr hname,
      String.ofList_toList, String.ofList_toList]

/-- The complaint about a word without an equals sign shows it. -/
theorem splitAssignment_eq_error_iff (flag : String) :
    splitAssignment flag value = .error e ↔
      '=' ∉ value.toList ∧ e = .notAnAssignment flag value := by
  have hnone : value.toList.dropWhile (· != '=') = [] ↔ '=' ∉ value.toList := by
    rw [List.dropWhile_eq_nil_iff]
    refine ⟨fun h hmem => ?_, fun h c hc => bne_iff_ne.mpr fun heq => h (heq ▸ hc)⟩
    simpa using h _ hmem
  rw [splitAssignment, ← hnone]
  cases value.toList.dropWhile (· != '=') <;> simp [eq_comm]

end Options

namespace CommandLine

variable {text : String} {color : Color} {n : Nat} {e : RunError}

/-! ### Colors -/

/-- The characters that spell a number: decimal digits, or hexadecimal ones behind a mark, with or
without a plus sign before them. -/
def SpellsNumber (cs : List Char) (n : Nat) : Prop :=
  ∃ mark base plus digits,
    (mark = [] ∧ base = 10 ∨ (mark = ['0', 'x'] ∨ mark = ['0', 'X']) ∧ base = 16) ∧
    (plus = [] ∨ plus = ['+']) ∧ digits ≠ [] ∧ Count.Writes base digits n ∧
    cs = mark ++ (plus ++ digits)

/-- A word spells a number that a color can have, between any blanks. -/
def SpellsColor (text : String) (n : Nat) : Prop :=
  n ≤ Count.largestColor ∧ ∃ cs, SpellsNumber cs n ∧ Text.Padded cs text.toList

/-- The number that is read from a word without the blanks around it. -/
def readNumber (cs : List Char) : Except CountError Nat :=
  match cs with
  | '0' :: 'x' :: digits => Count.read 16 Count.largestColor digits
  | '0' :: 'X' :: digits => Count.read 16 Count.largestColor digits
  | _ => Count.read 10 Count.largestColor cs

theorem readColor_eq (text : String) : readColor text =
    match readNumber (Text.trim text.toList) with
    | .ok n => .ok (UInt32.ofNat n)
    | .error e => .error (.invalidColor (Text.trimmed text) e) :=
  rfl

/-- A decimal number is not taken for a hexadecimal one, since the letter of the mark is no decimal
digit. -/
theorem readNumber_of_writes_ten {plus digits : List Char} (hplus : plus = [] ∨ plus = ['+'])
    (hwrites : Count.Writes 10 digits n) :
    readNumber (plus ++ digits) = Count.read 10 Count.largestColor (plus ++ digits) := by
  have hletter : ∀ c ∈ plus ++ digits, c ≠ 'x' ∧ c ≠ 'X' := by
    obtain ⟨values, hvalues, -⟩ := hwrites
    rw [List.forall_mem_append]
    refine ⟨by obtain rfl | rfl := hplus <;> simp, fun c hc => ?_⟩
    obtain ⟨d, -, hd⟩ := exists_of_forall₂_left hvalues c hc
    constructor <;> rintro rfl <;> simp [Count.digitValue?] at hd
  unfold readNumber
  split
  · next heq => simp [heq] at hletter
  · next heq => simp [heq] at hletter
  · rfl

/-- Behind a mark the digits are hexadecimal. -/
theorem readNumber_eq_ok_iff {cs : List Char} :
    readNumber cs = .ok n ↔ n ≤ Count.largestColor ∧ SpellsNumber cs n := by
  constructor
  · intro h
    unfold readNumber at h
    split at h
    · obtain ⟨plus, digits, hplus, hne, rfl, hwrites, hle⟩ :=
        (Count.read_eq_ok_iff (by decide)).mp h
      exact ⟨hle, ['0', 'x'], 16, plus, digits, .inr ⟨.inl rfl, rfl⟩, hplus, hne, hwrites, rfl⟩
    · obtain ⟨plus, digits, hplus, hne, rfl, hwrites, hle⟩ :=
        (Count.read_eq_ok_iff (by decide)).mp h
      exact ⟨hle, ['0', 'X'], 16, plus, digits, .inr ⟨.inr rfl, rfl⟩, hplus, hne, hwrites, rfl⟩
    · obtain ⟨plus, digits, hplus, hne, rfl, hwrites, hle⟩ :=
        (Count.read_eq_ok_iff (by decide)).mp h
      exact ⟨hle, [], 10, plus, digits, .inl ⟨rfl, rfl⟩, hplus, hne, hwrites, rfl⟩
  · rintro ⟨hle, mark, base, plus, digits, ⟨rfl, rfl⟩ | ⟨hmark, rfl⟩, hplus, hne, hwrites, rfl⟩
    · rw [List.nil_append, readNumber_of_writes_ten hplus hwrites]
      exact (Count.read_eq_ok_iff (by decide)).mpr ⟨plus, digits, hplus, hne, rfl, hwrites, hle⟩
    · have hread : Count.read 16 Count.largestColor (plus ++ digits) = .ok n :=
        (Count.read_eq_ok_iff (by decide)).mpr ⟨plus, digits, hplus, hne, rfl, hwrites, hle⟩
      obtain rfl | rfl := hmark
      · exact hread
      · exact hread

theorem SpellsNumber.not_isBlank {cs : List Char} (h : SpellsNumber cs n) :
    ∀ c ∈ cs, Text.isBlank c = false := by
  obtain ⟨mark, base, plus, digits, hmark, hplus, -, ⟨values, hvalues, -⟩, rfl⟩ := h
  rw [List.forall_mem_append, List.forall_mem_append]
  refine ⟨?_, Count.not_isBlank_of_mem_plus hplus, fun c hc => ?_⟩
  · obtain ⟨rfl, -⟩ | ⟨rfl | rfl, -⟩ := hmark <;> simp [Text.isBlank]
  · obtain ⟨d, -, hd⟩ := exists_of_forall₂_left hvalues c hc
    exact Count.not_isBlank_of_digitValue? hd

/-- **Colors are read** from the words that spell them. -/
theorem readColor_eq_ok_iff : readColor text = .ok color ↔ SpellsColor text color.toNat := by
  have hread : readColor text = .ok color ↔
      readNumber (Text.trim text.toList) = .ok color.toNat := by
    rw [readColor_eq]
    cases hnumber : readNumber (Text.trim text.toList) with
    | error e => simp
    | ok n =>
      have small : n < 2 ^ 32 := Nat.lt_succ_of_le (readNumber_eq_ok_iff.mp hnumber).1
      simp only [Except.ok.injEq]
      rw [← UInt32.toNat_inj, UInt32.toNat_ofNat_of_lt' small]
  rw [hread, readNumber_eq_ok_iff, SpellsColor]
  refine and_congr_right fun _ => ⟨fun h => ⟨_, h, ?_⟩, ?_⟩
  · exact (Text.trim_eq_iff_padded h.not_isBlank).mp rfl
  · rintro ⟨cs, hcs, hpadded⟩
    rwa [(Text.trim_eq_iff_padded hcs.not_isBlank).mpr hpadded]

/-- The complaint about any other word shows it without the blanks around it. -/
theorem exists_of_readColor_eq_error (h : readColor text = .error e) :
    (∀ n, ¬SpellsColor text n) ∧ ∃ reason, e = .invalidColor (Text.trimmed text) reason := by
  refine ⟨fun n hn => ?_, ?_⟩
  · have small : n < 2 ^ 32 := Nat.lt_succ_of_le hn.1
    rw [← UInt32.toNat_ofNat_of_lt' small, ← readColor_eq_ok_iff, h] at hn
    simp at hn
  · rw [readColor_eq] at h
    split at h
    · simp at h
    · next reason _ => exact ⟨reason, (Except.error.inj h).symm⟩

end CommandLine

end Quadrille
