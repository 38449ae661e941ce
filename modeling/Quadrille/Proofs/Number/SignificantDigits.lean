import Quadrille.Number.Display
import Quadrille.Proofs.Number.Digits
import Quadrille.Proofs.Number.Rounding

/-!
# Significant digits of doubles

`Scientific.ofWord` rounds a double to some significant digits. Its leading digit has the weight
that `Scientific.leadingExponent` says, so the first of the digits is not zero, and what is rounded
off is at most half a unit of the last. For seventeen digits that is less than one part in `2 ^ 54`,
and the double can be had back from them.

## Main results

* `Scientific.leadingExponent_spec` — the weight of the leading digit
* `Scientific.rounded_spec` — rounding behind some digits
* `Scientific.abs_magnitude_toDecimal_ofWord_sub_le` — how much is rounded off
* `Scientific.head?_digits_ofWord`, `Scientific.natAbs_exponent_ofWord_lt` — the digits and the
  exponent
* `Scientific.nearestWord_toDecimal_ofWord` — seventeen digits are enough
-/

namespace Quadrille

namespace Scientific

open Binary64 (unitsPerOne)

variable {x : Nat}

/-- **The leading digit** of a number of smallest units is where the exponent says. -/
theorem leadingExponent_spec (hx : 0 < x) :
    (10 : ℚ) ^ leadingExponent x ≤ x / unitsPerOne ∧
      (x / unitsPerOne : ℚ) < 10 ^ (leadingExponent x + 1) := by
  have hu : (0 : ℚ) < unitsPerOne := Nat.cast_pos.mpr Binary64.unitsPerOne_pos
  have hu' := Binary64.unitsPerOne_pos
  rw [leadingExponent]
  generalize unitsPerOne = u at *
  rw [le_div_iff₀ hu, div_lt_iff₀ hu]
  split
  · next h =>
    obtain ⟨k, hk, least, most⟩ := Digits.exists_count_eq (Nat.div_pos h hu')
    rw [Nat.le_div_iff_mul_le hu'] at least
    rw [Nat.div_lt_iff_lt_mul hu'] at most
    rw [hk]
    push_cast
    rw [add_sub_cancel_right, ← Nat.cast_add_one, zpow_natCast, zpow_natCast]
    exact ⟨mod_cast least, mod_cast most⟩
  · next h =>
    have hq : 0 < (u - 1) / x := Nat.div_pos (by omega) hx
    obtain ⟨k, hk, least, most⟩ := Digits.exists_count_eq hq
    rw [Nat.le_div_iff_mul_le hx] at least
    rw [Nat.div_lt_iff_lt_mul hx] at most
    rw [hk]
    have least' : (10 ^ k * x : ℚ) < u := mod_cast (by omega : 10 ^ k * x < u)
    have most' : (u : ℚ) ≤ 10 ^ (k + 1) * x := mod_cast (by omega : u ≤ 10 ^ (k + 1) * x)
    have next : -((k + 1 : ℕ) : ℤ) + 1 = -(k : ℤ) := by omega
    rw [next, zpow_neg, zpow_neg, zpow_natCast, zpow_natCast, inv_mul_le_iff₀ (by positivity),
      lt_inv_mul_iff₀ (by positivity)]
    exact ⟨most', least'⟩

/-- In scaling a number of smallest units at most a half is rounded off. -/
theorem abs_scaleUnits_sub_le (x : Nat) (power : Int) :
    |(scaleUnits x power : ℚ) - x / unitsPerOne * 10 ^ power| ≤ 1 / 2 := by
  have hu := Binary64.unitsPerOne_pos
  rw [scaleUnits]
  generalize unitsPerOne = u at *
  split
  · next hpower =>
    obtain ⟨k, rfl⟩ := Int.eq_ofNat_of_zero_le hpower
    have hvalue : (x / u * 10 ^ (k : ℤ) : ℚ) = ((x * 10 ^ k : ℕ) : ℚ) / u := by
      rw [zpow_natCast, div_mul_eq_mul_div]
      push_cast
      rfl
    rw [hvalue]
    exact abs_roundHalfEven_sub_le _ hu
  · next hpower =>
    obtain ⟨k, rfl⟩ : ∃ k : ℕ, power = -k := ⟨(-power).toNat, by omega⟩
    have hvalue : (x / u * 10 ^ (-k : ℤ) : ℚ) = x / ((u * 10 ^ k : ℕ) : ℚ) := by
      rw [zpow_neg, zpow_natCast, ← div_eq_mul_inv, div_div]
      push_cast
      rfl
    rw [hvalue, Int.neg_neg, Int.toNat_natCast]
    exact abs_roundHalfEven_sub_le x (Nat.mul_pos hu (Nat.pow_pos (by decide)))

/-- **Rounding behind some digits.** If a number is scaled so that `places` digits follow the
leading one, and rounded to a whole number, this has just these digits or is the next power of ten,
and scaled back it differs from the number by at most half of its last digit. -/
theorem rounded_spec {v : ℚ} {e : ℤ} {places c : Nat} (leading : 10 ^ e ≤ v)
    (trailing : v < 10 ^ (e + 1)) (rounding : |(c : ℚ) - v * 10 ^ (places - e : ℤ)| ≤ 1 / 2) :
    10 ^ places ≤ c ∧ c ≤ 10 ^ (places + 1) ∧
      |(c : ℚ) * 10 ^ (e - places : ℤ) - v| ≤ v / (2 * 10 ^ places) := by
  -- the weight of the last digit
  obtain ⟨z, hz⟩ : ∃ z : ℚ, z = 10 ^ (e - places : ℤ) := ⟨_, rfl⟩
  have hpos : 0 < z := by
    rw [hz]
    exact zpow_pos (by norm_num) _
  have hlow : 10 ^ places * z = 10 ^ e := hz ▸ ten_pow_mul_zpow (add_sub_cancel _ _)
  have hhigh : 10 ^ (places + 1) * z = 10 ^ (e + 1) :=
    hz ▸ ten_pow_mul_zpow (by push_cast; ring)
  have hscale : v * 10 ^ (places - e : ℤ) = v / z := by
    rw [hz, ← neg_sub (e : ℤ), zpow_neg, div_eq_mul_inv]
  rw [hscale, abs_le] at rounding
  have least : (10 : ℚ) ^ places ≤ v / z := by rwa [le_div_iff₀ hpos, hlow]
  have most : v / z < (10 : ℚ) ^ (places + 1) := by rwa [div_lt_iff₀ hpos, hhigh]
  rw [← hz]
  refine ⟨?_, ?_, ?_⟩
  · have enough : (2 * 10 ^ places : ℚ) ≤ 2 * c + 1 := by linarith
    have enough' : 2 * 10 ^ places ≤ 2 * c + 1 := mod_cast enough
    omega
  · have few : (2 * c : ℚ) < 2 * 10 ^ (places + 1) + 1 := by linarith
    have few' : 2 * c < 2 * 10 ^ (places + 1) + 1 := mod_cast few
    omega
  · have last : z ≤ v / 10 ^ places := by rwa [le_div_iff₀ (by positivity), mul_comm, hlow]
    have exact : (c : ℚ) * z - v = (c - v / z) * z := by field_simp
    rw [exact, abs_mul, abs_of_pos hpos]
    calc |(c : ℚ) - v / z| * z ≤ 1 / 2 * (v / 10 ^ places) :=
          mul_le_mul (abs_le.mpr rounding) last hpos.le (by norm_num)
      _ = v / (2 * 10 ^ places) := by ring

/-- **Rounded to digits,** a double is a number of so many digits, the first of which is not zero,
and it differs from that by at most half of the last digit. -/
theorem exists_digits_ofWord {w : Nat} (hw : 0 < Binary64.units w) (places : Nat) :
    ∃ m, (ofWord (places + 1) w).digits = Digits.ofNat (places + 1) m ∧
      10 ^ places ≤ m ∧ m < 10 ^ (places + 1) ∧
      |(m : ℚ) * 10 ^ ((ofWord (places + 1) w).exponent - places) - Binary64.value w| ≤
        Binary64.value w / (2 * 10 ^ places) := by
  obtain ⟨leading, trailing⟩ := leadingExponent_spec hw
  have rounding := abs_scaleUnits_sub_le (Binary64.units w)
    (places - leadingExponent (Binary64.units w))
  rw [← Binary64.value] at leading trailing rounding
  obtain ⟨least, most, error⟩ := rounded_spec leading trailing rounding
  rw [ofWord]
  push_cast
  rw [add_sub_cancel_right]
  generalize leadingExponent (Binary64.units w) = e at *
  generalize scaleUnits (Binary64.units w) (places - e) = c at *
  split
  · next hc => exact ⟨c, rfl, least, hc, error⟩
  · next hc =>
    obtain rfl := Nat.le_antisymm most (Nat.le_of_not_lt hc)
    refine ⟨10 ^ places, rfl, le_rfl, Nat.pow_lt_pow_right (by decide) (by omega), ?_⟩
    -- the digits of the next power of ten are those of this one, and the exponent has moved
    have same : ((10 ^ places : ℕ) : ℚ) * 10 ^ (e + 1 - places : ℤ) =
        ((10 ^ (places + 1) : ℕ) : ℚ) * 10 ^ (e - places : ℤ) := by
      rw [add_sub_right_comm, zpow_add_one₀ (by norm_num)]
      push_cast
      ring
    rwa [same]

variable {w : Nat}

theorem head?_digits_ofWord (hw : 0 < Binary64.units w) (places : Nat) :
    ∃ d ∈ (ofWord (places + 1) w).digits.head?, d ≠ 0 := by
  obtain ⟨m, hdigits, hleast, hmost, -⟩ := exists_digits_ofWord hw places
  refine Digits.exists_head?_ne_zero (by rw [hdigits, Digits.length_ofNat]) ?_
  rw [hdigits, Digits.value_ofNat, Nat.pow_eq, Nat.mod_eq_of_lt hmost]
  exact hleast

/-- **What is rounded off** is less than half a unit of the last digit. -/
theorem abs_magnitude_toDecimal_ofWord_sub_le (hw : 0 < Binary64.units w) (places : Nat)
    (negative : Bool) :
    |((ofWord (places + 1) w).toDecimal negative).magnitude - Binary64.value w| ≤
      Binary64.value w / (2 * 10 ^ places) := by
  obtain ⟨m, hdigits, -, hmost, herror⟩ := exists_digits_ofWord hw places
  have hvalue : Digits.value (ofWord (places + 1) w).digits = m := by
    rw [hdigits, Digits.value_ofNat, Nat.pow_eq, Nat.mod_eq_of_lt hmost]
  have hplaces : (((ofWord (places + 1) w).digits.length : ℕ) : ℤ) - 1 = places := by
    rw [hdigits, Digits.length_ofNat]
    omega
  rwa [toDecimal, Decimal.magnitude, hvalue, hplaces]

/-- The exponents of doubles have only a few digits. -/
theorem natAbs_exponent_ofWord_lt (hw : 0 < w) (hlt : w < Binary64.infinity) (places : Nat) :
    (ofWord (places + 1) w).exponent.natAbs < 3000 := by
  obtain ⟨m, -, hleast, hmost, herror⟩ := exists_digits_ofWord (Binary64.units_pos hw) places
  obtain ⟨j, k, hj, hk, hlow, hhigh⟩ := Binary64.exists_pow_le_value hw hlt
  generalize (ofWord (places + 1) w).exponent = e at *
  generalize Binary64.value w = v at *
  have hpos : 0 < v := (zpow_pos (by norm_num) _).trans_le hlow
  have hscale : (0 : ℚ) < 10 ^ (e - places : ℤ) := zpow_pos (by norm_num) _
  -- the digits differ from the number by at most half of it
  have hhalf : v / (2 * 10 ^ places) ≤ v / 2 :=
    div_le_div_of_nonneg_left hpos.le (by norm_num)
      (le_mul_of_one_le_right (by norm_num) (one_le_pow₀ (by norm_num)))
  obtain ⟨hover, hunder⟩ := abs_le.mp herror
  have hfirst : (10 : ℚ) ^ e ≤ m * 10 ^ (e - places : ℤ) := by
    rw [← ten_pow_mul_zpow (n := places) (add_sub_cancel _ _)]
    exact mul_le_mul_of_nonneg_right (mod_cast hleast) hscale.le
  have hnext : (m * 10 ^ (e - places : ℤ) : ℚ) < 10 ^ (e + 1) := by
    rw [← ten_pow_mul_zpow (n := places + 1) (a := e - places) (b := e + 1) (by push_cast; ring)]
    exact mul_lt_mul_of_pos_right (mod_cast hmost) hscale
  have hupper : (10 : ℚ) ^ e < 10 ^ (k + 1 : ℤ) := by
    rw [zpow_add_one₀ (by norm_num)]
    linarith
  have hlower : (10 : ℚ) ^ (-j - 1 : ℤ) < 10 ^ (e + 1) := by
    rw [zpow_sub_one₀ (by norm_num)]
    linarith
  rw [zpow_lt_zpow_iff_right₀ (by norm_num)] at hupper hlower
  omega

/-- **Seventeen digits determine a double.** -/
theorem nearestWord_toDecimal_ofWord (hw : 0 < w) (hlt : w < Binary64.infinity) (negative : Bool) :
    ((ofWord Number.fullPrecision w).toDecimal negative).nearestWord = w := by
  have hunits := Binary64.units_pos hw
  have hpos : 0 < Binary64.value w :=
    div_pos (Nat.cast_pos.mpr hunits) (Nat.cast_pos.mpr Binary64.unitsPerOne_pos)
  refine Decimal.nearestWord_eq_of_abs_sub_lt hlt ?_
  calc |((ofWord (16 + 1) w).toDecimal negative).magnitude - Binary64.value w|
      ≤ Binary64.value w / (2 * 10 ^ 16) :=
        abs_magnitude_toDecimal_ofWord_sub_le hunits 16 negative
    _ < Binary64.value w / 2 ^ 54 :=
        div_lt_div_of_pos_left hpos (by norm_num) (by norm_num)

end Scientific

end Quadrille
