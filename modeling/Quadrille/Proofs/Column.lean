import Quadrille.Proofs.Address

/-!
# Columns and their letters

Between the numbers of columns and the runs of capital letters there is a bijection, and a 64-bit
word cuts it off at an exact place. Reading letters multiplies and adds, and refuses as soon as the
number outgrows a word; writing them takes one off and divides. What has been read only grows
(`Column.readLetters?_eq`), so it does not matter where on the way the refusal comes. What is still
to be written only shrinks, so a word that takes the number to begin with is wide enough to the end
(`Column.wideLetters_eq`).

Writing needs the wider word for one column only. Columns are counted from zero in addresses and
from one when they are written, and the largest that is counted from zero has no successor in 64
bits. It is written all the same: its letters are the first that are not read back.

## Main definitions

* `Column.wideLetters` — the letters of a column, computed in words of 128 bits
* `Column.lettersOfNumber`, `Column.lettersOfIndex` — of a column counted from one and from zero

## Main results

* `Column.ofName?_eq_none_iff` — when letters at the front of a text are refused
* `Column.wideLetters_eq` — words of 128 bits are wide enough
* `Column.letters_bijective` — letters and numbers determine each other, up to the boundary
-/

namespace Quadrille.Column

/-! ### Letters -/

theorem isUpper_letter (k : Fin 26) : (Char.ofNat ('A'.toNat + k.val)).isUpper = true := by
  revert k
  decide

theorem isUpper_of_mem_letters {n : Nat} {c : Char} (h : c ∈ letters n) : c.isUpper = true := by
  induction n using letters.induct with
  | case1 => simp [letters] at h
  | case2 n hn ih =>
    rw [letters, if_neg hn, List.mem_append, List.mem_singleton] at h
    obtain h | rfl := h
    · exact ih h
    · exact isUpper_letter ⟨(n - 1) % 26, Nat.mod_lt _ (by decide)⟩

/-- Letters at the front of a text are refused if their number does not fit a 64-bit word, and for
no other reason. -/
theorem ofName?_eq_none_iff {name : List Char} (hne : name.takeWhile isLetter ≠ []) :
    ofName? name = none ↔ Count.largest < number (name.takeWhile isLetter) := by
  rw [ofName?_eq]
  simp [hne]

/-! ### Words -/

theorem toNat_sub_one {n : BitVec 128} (hn : n ≠ 0) : (n - 1).toNat = n.toNat - 1 := by
  have hpos : n.toNat ≠ 0 := fun h => hn (BitVec.eq_of_toNat_eq h)
  have hone : (1 : BitVec 128).toNat = 1 := rfl
  rw [BitVec.toNat_sub_of_le (by rw [BitVec.le_def]; omega), hone]

/-- The letters of a column number, computed in words of 128 bits. -/
def wideLetters (n : BitVec 128) : List Char :=
  if n = 0 then []
  else wideLetters ((n - 1) / 26) ++ [Char.ofNat ('A'.toNat + ((n - 1) % 26).toNat)]
termination_by n.toNat
decreasing_by
  have hpos : n.toNat ≠ 0 := fun h => ‹n ≠ 0› (BitVec.eq_of_toNat_eq h)
  rw [BitVec.toNat_udiv, toNat_sub_one ‹n ≠ 0›]
  exact (Nat.div_le_self _ _).trans_lt (by omega)

/-- The letters of a column counted from one in a 64-bit word. -/
def lettersOfNumber (n : BitVec 64) : List Char :=
  wideLetters (n.setWidth 128)

/-- The letters of a column counted from zero in a 64-bit word. It is counted from one only in the
wider word. -/
def lettersOfIndex (column : BitVec 64) : List Char :=
  wideLetters (column.setWidth 128 + 1)

/-- **Words of 128 bits are wide enough:** nothing is lost on the way from the number to its first
letter. -/
theorem wideLetters_eq (n : BitVec 128) : wideLetters n = letters n.toNat := by
  induction n using wideLetters.induct with
  | case1 => rw [wideLetters, if_pos rfl, letters, if_pos (by rfl)]
  | case2 n hn ih =>
    have hpos : n.toNat ≠ 0 := fun h => hn (BitVec.eq_of_toNat_eq h)
    have hbase : (26 : BitVec 128).toNat = 26 := rfl
    rw [wideLetters, if_neg hn, ih, BitVec.toNat_udiv, BitVec.toNat_umod, toNat_sub_one hn, hbase,
      letters.eq_def n.toNat, if_neg hpos]

theorem lettersOfNumber_eq (n : BitVec 64) : lettersOfNumber n = letters n.toNat := by
  rw [lettersOfNumber, wideLetters_eq, BitVec.toNat_setWidth_of_le (by decide)]

theorem lettersOfIndex_eq (column : BitVec 64) :
    lettersOfIndex column = letters (column.toNat + 1) := by
  have hlt : column.toNat < 2 ^ 64 := column.isLt
  have hone : (1 : BitVec 128).toNat = 1 := rfl
  rw [lettersOfIndex, wideLetters_eq, BitVec.toNat_add, BitVec.toNat_setWidth_of_le (by decide),
    hone, Nat.mod_eq_of_lt (by omega)]

/-! ### The bijection -/

/-- **Letters and numbers of columns determine each other.** Each number that fits a 64-bit word has
letters, all of them capitals, and is read back from them. Letters at the front of a text are
refused exactly if the number that they write in bijective base twenty-six does not fit; otherwise
they are read as a number, and its letters are they themselves in upper case. A column counted from
zero has the letters of its successor. That is so of the largest as well, which has no successor in
64 bits; its letters are the first that are refused. -/
theorem letters_bijective :
    (∀ n, 1 ≤ n → n ≤ Count.largest →
      letters n ≠ [] ∧ (∀ c ∈ letters n, c.isUpper = true) ∧ ofName? (letters n) = some n) ∧
    (∀ name run : List Char, run = name.takeWhile isLetter → run ≠ [] →
      (ofName? name = none ↔
        Count.largest < Nat.ofDigits 26 (run.map letterNumber).reverse) ∧
      (ofName? name ≠ none →
        ∃ n, ofName? name = some n ∧ 1 ≤ n ∧ letters n = run.map Char.toUpper)) ∧
    (∀ n : BitVec 64, lettersOfNumber n = letters n.toNat) ∧
    (∀ column : BitVec 64, column ≠ BitVec.allOnes 64 →
      lettersOfIndex column = lettersOfNumber (column + 1)) ∧
    ∀ column : BitVec 64,
      lettersOfIndex column ≠ [] ∧ (∀ c ∈ lettersOfIndex column, c.isUpper = true) ∧
      number (lettersOfIndex column) = column.toNat + 1 ∧
      (ofName? (lettersOfIndex column) = none ↔ column = BitVec.allOnes 64) := by
  refine ⟨fun n hpos hle => ?_, fun name run hrun hne => ?_, lettersOfNumber_eq,
    fun column hcolumn => ?_, fun column => ?_⟩
  · have hn : n ≠ 0 := Nat.ne_of_gt hpos
    exact ⟨letters_ne_nil hn, fun c => isUpper_of_mem_letters, ofName?_letters hn hle⟩
  · subst hrun
    rw [← number_eq_ofDigits]
    refine ⟨ofName?_eq_none_iff hne, fun hsome => ⟨number (name.takeWhile isLetter), ?_, ?_, ?_⟩⟩
    · have hle := mt (ofName?_eq_none_iff hne).mpr hsome
      exact ofName?_eq_some_iff.mpr ⟨hne, Nat.not_lt.mp hle, rfl⟩
    · exact number_pos hne
    · exact letters_number fun c hc => List.mem_takeWhile_imp hc
  · have hlast : column.toNat ≠ 2 ^ 64 - 1 := fun h =>
      hcolumn (BitVec.eq_of_toNat_eq (h.trans BitVec.toNat_allOnes.symm))
    have hlt : column.toNat < 2 ^ 64 := column.isLt
    have hone : (1 : BitVec 64).toNat = 1 := rfl
    rw [lettersOfIndex_eq, lettersOfNumber_eq, BitVec.toNat_add, hone, Nat.mod_eq_of_lt (by omega)]
  · have hne : letters (column.toNat + 1) ≠ [] := letters_ne_nil (Nat.succ_ne_zero _)
    have hletters : (letters (column.toNat + 1)).takeWhile isLetter = letters (column.toNat + 1) :=
      List.takeWhile_eq_self_iff.mpr fun c hc => isLetter_of_mem_letters hc
    have hlt : column.toNat < 2 ^ 64 := column.isLt
    rw [lettersOfIndex_eq]
    refine ⟨hne, fun c => isUpper_of_mem_letters, number_letters _, ?_⟩
    rw [ofName?_eq_none_iff (hletters.symm ▸ hne), hletters, number_letters,
      ← BitVec.toNat_inj, BitVec.toNat_allOnes, Count.largest]
    omega

/-- The last letters that fit a 64-bit word, in either case, and the first that do not. -/
example : ofName? "gkgWBYLWRXTLPO1".toList = some Count.largest ∧
    ofName? "GKGWBYLWRXTLPP".toList = none := by decide

end Quadrille.Column
