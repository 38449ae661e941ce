import Mathlib
import Quadrille.Proofs.Number.Layout
import Quadrille.Proofs.Number.SignificantDigits

/-!
# Displayed numbers read back

Every double is read back from the text that displays it, but for the sign of a zero, which is not
displayed. The work is done elsewhere: the digits of a number are laid out and read without loss,
and where fifteen of them are not enough to determine it there are seventeen.

A double is taken apart into its sign and its word and put together again without loss. All words
above infinity stand for no number, and of what is no number there is only one double.

## Main definitions

* `Number.unsignZero` — a number without the sign of a zero
* `Number.keptBits` — the bits that are left of a displayed number

## Main results

* `Binary64.ofWord_isNegative_word` — the parts of a double
* `Binary64.toBits_ofBits` — what is no number
* `Number.read_display`, `Number.toBits_read_display_ofBits` — displayed numbers read back
-/

namespace Quadrille

namespace Binary64

variable {x : Float}

/-- **A double consists of its sign and its word.** -/
theorem ofWord_isNegative_word (x : Float) : ofWord (isNegative x) (word x) = x := by
  have hparts : (if isNegative x then signWeight + word x else word x) = x.toBits.toNat := by
    have hlt := x.toBits.toNat_lt
    have hweight : signWeight = 2 ^ 63 := rfl
    by_cases hsign : signWeight ≤ x.toBits.toNat
    · rw [isNegative, decide_eq_true hsign, if_pos rfl, word, hweight]
      omega
    · rw [isNegative, decide_eq_false hsign, if_neg Bool.false_ne_true, word, hweight]
      omega
  rw [ofWord, hparts, UInt64.ofNat_toNat, Float.ofBits_toBits]

section Bits

open Float.Model.UnpackedFloat

/-- The bits above infinity, sign aside, stand for no number. -/
theorem isNaNBits_iff {bits : UInt64} :
    @isNaNBits .binary64 bits.toBitVec = true ↔ infinity < bits.toNat % signWeight := by
  have hinfinity : infinity = 2047 * 2 ^ 52 := rfl
  have hweight : signWeight = 2 ^ 63 := rfl
  have hexponent : @unpackExponent .binary64 bits.toBitVec = -1#_ ↔
      bits.toNat / 2 ^ 52 % 2 ^ 11 = 2047 := by
    rw [unpackExponent_def, ← BitVec.toNat_inj, BitVec.extractLsb'_toNat, Nat.shiftRight_eq_div_pow]
    rfl
  have hmantissa : @unpackMantissa .binary64 bits.toBitVec = 0#_ ↔
      bits.toNat / 2 ^ 0 % 2 ^ 52 = 0 := by
    rw [unpackMantissa_def, ← BitVec.toNat_inj, BitVec.extractLsb'_toNat, Nat.shiftRight_eq_div_pow]
    rfl
  rw [isNaNBits, decide_eq_true_eq, ne_eq, hexponent, hmantissa, hinfinity, hweight]
  omega

theorem toBitVec_toBits_notANumber : notANumber.toBits.toBitVec = packedNaN .binary64 := by
  decide +kernel

/-- **There is only one double that is no number.** All bits that stand for none give it. -/
theorem toBits_ofBits (bits : UInt64) : (Float.ofBits bits).toBits =
    if infinity < bits.toNat % signWeight then notANumber.toBits else bits := by
  refine UInt64.toBitVec_inj.mp ((@pack_unpack .binary64 bits.toBitVec (by decide)).trans ?_)
  rw [apply_ite UInt64.toBitVec, toBitVec_toBits_notANumber]
  exact if_congr isNaNBits_iff rfl rfl

theorem eq_notANumber_of_infinity_lt (h : infinity < word x) : x = notANumber := by
  have hbits := toBits_ofBits x.toBits
  rw [Float.ofBits_toBits] at hbits
  rw [word] at h
  rw [if_pos h] at hbits
  exact Float.toBits_inj.mp hbits

end Bits

end Binary64

namespace Scientific

variable {s : Scientific}

/-- What is written for the exponent is not more than the exponent. -/
theorem value_power_written_le (precision : Nat) (negative : Bool) :
    Digits.value (s.written precision negative).power ≤ s.exponent.natAbs := by
  rw [written]
  split
  · rw [writtenFixed]
    split <;> exact Nat.zero_le _
  · exact (value_atLeastTwoDigits _).le

/-- **A laid out number is rounded** like the decimal that its digits are. -/
theorem toFloat_written (precision : Nat) (negative : Bool)
    (h : Digits.dropTrailingZeros s.digits ≠ []) (hexponent : s.exponent.natAbs < 10 * Digits.cap) :
    (Numeral.finite (s.written precision negative)).toFloat =
      Binary64.ofWord negative (s.toDecimal negative).nearestWord := by
  have hpower := (value_power_written_le precision negative).trans_lt hexponent
  rw [Numeral.toFloat, (written_wellFormed precision negative h).1,
    Written.counted_eq_toDecimal hpower,
    Decimal.nearestWord_congr (magnitude_written precision negative h)]

end Scientific

namespace Number

variable {w : Nat}

/-- The text of a finite double is one of its layouts, with as many digits as determine it. -/
theorem exists_displayFinite_eq (hw : 0 < w) (hlt : w < Binary64.infinity) (negative : Bool) :
    ∃ places, displayFinite negative w =
        (Scientific.ofWord (places + 1) w).layout (places + 1) negative ∧
      ((Scientific.ofWord (places + 1) w).toDecimal negative).nearestWord = w := by
  rw [displayFinite]
  split
  · next hshort => exact ⟨14, rfl, hshort⟩
  · exact ⟨16, rfl, Scientific.nearestWord_toDecimal_ofWord hw hlt negative⟩

/-- **The text of a finite double is read as this double.** -/
theorem read_displayFinite (hw : 0 < w) (hlt : w < Binary64.infinity) (negative : Bool) :
    read (String.ofList (displayFinite negative w)) = Binary64.ofWord negative w := by
  obtain ⟨places, htext, hnearest⟩ := exists_displayFinite_eq hw hlt negative
  generalize hs : Scientific.ofWord (places + 1) w = s at htext hnearest
  have hexponent : s.exponent.natAbs < 10 * Digits.cap := by
    have := Scientific.natAbs_exponent_ofWord_lt hw hlt places
    rw [hs] at this
    exact this.trans (by decide)
  have hdigits : Digits.dropTrailingZeros s.digits ≠ [] := by
    have hhead := Scientific.head?_digits_ofWord (Binary64.units_pos hw) places
    rw [hs] at hhead
    obtain ⟨d, hd, -⟩ := Digits.head?_dropTrailingZeros hhead
    exact List.ne_nil_of_mem (List.mem_of_mem_head? hd)
  have htrimmed : Text.trimmed (String.ofList (displayFinite negative w)) =
      String.ofList (s.layout (places + 1) negative) := by
    rw [Text.trimmed, String.toList_ofList, htext,
      Scientific.trim_layout (places + 1) negative hdigits]
  rw [read, htrimmed, ofText?, String.toList_ofList,
    Scientific.read?_layout (places + 1) negative hdigits, Option.map_some,
    Scientific.toFloat_written (places + 1) negative hdigits hexponent, hnearest]
  rfl

/-- The same number, but for the sign of a zero. -/
def unsignZero (x : Float) : Float :=
  if x.toBits = 0x8000000000000000 then Float.ofBits 0 else x

theorem unsignZero_of_word_ne_zero {x : Float} (h : Binary64.word x ≠ 0) : unsignZero x = x := by
  refine if_neg fun hbits => h ?_
  rw [Binary64.word, hbits]
  decide

theorem unsignZero_of_word_eq_zero {x : Float} (h : Binary64.word x = 0) :
    unsignZero x = Float.ofBits 0 := by
  rw [unsignZero]
  split
  · rfl
  · next hbits =>
    have hzero : x.toBits = 0 := by
      have hlt := x.toBits.toNat_lt
      have hweight : Binary64.signWeight = 2 ^ 63 := rfl
      rw [← UInt64.toNat_inj] at hbits ⊢
      change ¬x.toBits.toNat = 2 ^ 63 at hbits
      change x.toBits.toNat = 0
      rw [Binary64.word, hweight] at h
      omega
    rw [← hzero, Float.ofBits_toBits]

/-- **A number is read back from the text that displays it,** but for the sign of a zero. -/
theorem read_display (x : Float) : read (display x) = unsignZero x := by
  have parts := Binary64.ofWord_isNegative_word x
  rw [display]
  split
  · next hnan =>
    rw [Binary64.eq_notANumber_of_infinity_lt hnan]
    decide +kernel
  · next hnan =>
    split
    · next hinfinite =>
      rw [unsignZero_of_word_ne_zero (by rw [hinfinite]; decide), ← parts, hinfinite]
      cases Binary64.isNegative x <;> decide +kernel
    · next hfinite =>
      split
      · next hzero =>
        rw [unsignZero_of_word_eq_zero hzero]
        decide +kernel
      · next hzero =>
        rw [read_displayFinite (Nat.pos_of_ne_zero hzero) (by omega), parts,
          unsignZero_of_word_ne_zero hzero]

/-- The bits of a double after it has been displayed and read back: the same, but for the sign of a
zero and for what is no number. -/
def keptBits (bits : UInt64) : UInt64 :=
  if bits = 0x8000000000000000 then 0
  else if Binary64.infinity < bits.toNat % Binary64.signWeight then Binary64.notANumber.toBits
  else bits

/-- **Displayed numbers keep their bits.** -/
theorem toBits_read_display_ofBits (bits : UInt64) :
    (read (display (Float.ofBits bits))).toBits = keptBits bits := by
  rw [read_display, unsignZero, Binary64.toBits_ofBits, keptBits]
  by_cases hnan : Binary64.infinity < bits.toNat % Binary64.signWeight
  · have hzero : bits ≠ 0x8000000000000000 := by
      rintro rfl
      exact absurd hnan (by decide)
    have hnan' : Binary64.notANumber.toBits ≠ 0x8000000000000000 := by decide +kernel
    rw [if_pos hnan, if_neg hnan', if_neg hzero, Binary64.toBits_ofBits, if_pos hnan]
  · rw [if_neg hnan, apply_ite Float.toBits, Binary64.toBits_ofBits bits, if_neg hnan]
    rfl

end Number

end Quadrille
