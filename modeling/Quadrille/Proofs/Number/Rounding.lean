import Mathlib.Algebra.Order.Field.Rat
import Mathlib.Data.Nat.Log
import Mathlib.Tactic.FieldSimp
import Mathlib.Tactic.Linarith
import Mathlib.Tactic.NormNum
import Mathlib.Tactic.Positivity
import Mathlib.Tactic.Ring
import Quadrille.Number.Binary64

/-!
# Rounding to doubles

What `Binary64.nearest` and `Decimal.nearestWord` do to numbers that are close to a double: they
give this double. Neither of them depends on how the number is written as a fraction or as a
decimal, so both are stated about rational numbers, and nothing here mentions a text.

The bound is the same for all doubles, one part in `2 ^ 54` of the double itself. That is never more
than half of the gap to the next double: it comes close to it for the largest significands, and is
just half of the gap below a power of two, which is half as wide as the gap above.

## Main definitions

* `Binary64.value`, `Decimal.magnitude` — the rational numbers that words and decimals stand for

## Main results

* `roundHalfEven_bounds`, `roundHalfEven_eq` — rounding to a whole number
* `Binary64.nearest_congr`, `Decimal.nearestWord_congr` — only the value matters
* `Binary64.nearest_eq_of_abs_sub_lt`, `Decimal.nearestWord_eq_of_abs_sub_lt` — what is close to a
  double is rounded to it
-/

namespace Quadrille

section RoundHalfEven

variable {n d k : Nat}

/-- What is rounded off is at most a half. -/
theorem roundHalfEven_bounds (n : Nat) (hd : 0 < d) :
    2 * (roundHalfEven n d * d) ≤ 2 * n + d ∧ 2 * n ≤ 2 * (roundHalfEven n d * d) + d := by
  have parts := Nat.div_add_mod' n d
  have rest := Nat.mod_lt n hd
  rw [roundHalfEven]
  split
  · omega
  · rw [Nat.succ_mul (n / d)]
    omega

/-- A whole number from which the quotient differs by less than a half is what it is rounded to. -/
theorem roundHalfEven_eq (low : 2 * (k * d) < 2 * n + d) (high : 2 * n < 2 * (k * d) + d) :
    roundHalfEven n d = k := by
  obtain ⟨upper, lower⟩ := roundHalfEven_bounds n (show 0 < d by omega)
  have le : roundHalfEven n d * d < (k + 1) * d := by
    rw [Nat.succ_mul]
    omega
  have ge : k * d < (roundHalfEven n d + 1) * d := by
    rw [Nat.succ_mul]
    omega
  exact Nat.le_antisymm (Nat.le_of_lt_succ (Nat.lt_of_mul_lt_mul_right le))
    (Nat.le_of_lt_succ (Nat.lt_of_mul_lt_mul_right ge))

theorem roundHalfEven_mul_left (hk : 0 < k) (n d : Nat) :
    roundHalfEven (k * n) (k * d) = roundHalfEven n d := by
  have half : 2 * (k * (n % d)) < k * d ↔ 2 * (n % d) < d := by
    rw [Nat.mul_left_comm, Nat.mul_lt_mul_left hk]
  have tie : 2 * (k * (n % d)) = k * d ↔ 2 * (n % d) = d := by
    rw [Nat.mul_left_comm, Nat.mul_right_inj (Nat.ne_of_gt hk)]
  simp only [roundHalfEven, Nat.mul_div_mul_left _ _ hk, Nat.mul_mod_mul_left, half, tie]

theorem abs_roundHalfEven_sub_le (n : Nat) (hd : 0 < d) :
    |(roundHalfEven n d : ℚ) - n / d| ≤ 1 / 2 := by
  obtain ⟨low, high⟩ := roundHalfEven_bounds n hd
  have hd' : (0 : ℚ) < d := Nat.cast_pos.mpr hd
  have low' : (2 * (roundHalfEven n d * d) : ℚ) ≤ 2 * n + d := mod_cast low
  have high' : (2 * n : ℚ) ≤ 2 * (roundHalfEven n d * d) + d := mod_cast high
  rw [abs_le, neg_le_sub_iff_le_add, sub_le_iff_le_add, div_le_iff₀ hd', ← sub_le_iff_le_add',
    le_div_iff₀ hd']
  constructor <;> linarith

end RoundHalfEven

namespace Binary64

variable {n d w : Nat}

theorem unitsPerOne_eq : unitsPerOne = 2 ^ 1074 := by
  decide +kernel

theorem unitsPerOne_pos : 0 < unitsPerOne := by
  decide +kernel

theorem nearest_mul_left {k : Nat} (hk : 0 < k) (n d : Nat) :
    nearest (k * n) (k * d) = nearest n d := by
  simp only [nearest, Nat.mul_assoc, Nat.mul_div_mul_left _ _ hk, roundHalfEven_mul_left hk]

/-- Fractions of the same value have the same nearest double. -/
theorem nearest_congr {n' d' : Nat} (hd : 0 < d) (hd' : 0 < d') (h : n * d' = n' * d) :
    nearest n d = nearest n' d' := by
  rw [← nearest_mul_left hd', Nat.mul_comm d', h, Nat.mul_comm n', Nat.mul_comm d',
    nearest_mul_left hd]

/-- A word consists of a shift and a significand, which is a full one if there is a shift. -/
theorem exists_shift_significand (w : Nat) : ∃ shift significand,
    w = shift * exponentWeight + significand ∧ units w = significand * 2 ^ shift ∧
      significand < 2 * exponentWeight ∧ (shift = 0 ∨ exponentWeight ≤ significand) := by
  have parts := Nat.div_add_mod' w exponentWeight
  have rest : w % exponentWeight < exponentWeight := Nat.mod_lt w (by decide)
  refine ⟨w / exponentWeight - 1, w - (w / exponentWeight - 1) * exponentWeight, ?_, rfl, ?_⟩
  · have := Nat.mul_le_mul_right exponentWeight (Nat.sub_le (w / exponentWeight) 1)
    omega
  · cases h : w / exponentWeight with
    | zero =>
      rw [h] at parts
      omega
    | succ shift =>
      rw [h, Nat.succ_mul] at parts
      rw [Nat.add_sub_cancel]
      omega

/-- A fraction is rounded to a word if this has the right shift for it and, counted in the units of
the shift, the significand differs from it by less than a half. -/
theorem nearest_eq_of_shift {shift k gap : Nat} (hgap : gap = d * 2 ^ shift)
    (room : n * unitsPerOne < 2 ^ 53 * gap) (full : shift = 0 ∨ 2 ^ 52 * gap ≤ n * unitsPerOne)
    (low : 2 * (k * gap) < 2 * (n * unitsPerOne) + gap)
    (high : 2 * (n * unitsPerOne) < 2 * (k * gap) + gap)
    (hinfinity : shift * exponentWeight + k ≤ infinity) :
    nearest n d = shift * exponentWeight + k := by
  have hd : 0 < d := by
    refine Nat.pos_of_ne_zero ?_
    rintro rfl
    simp [hgap] at room
  have hshift : (n * unitsPerOne / d).log2 - 52 = shift := by
    have upper : n * unitsPerOne / d < 2 ^ (53 + shift) := by
      rw [Nat.div_lt_iff_lt_mul hd, Nat.pow_add, Nat.mul_assoc, Nat.mul_comm _ d, ← hgap]
      exact room
    have lower : shift = 0 ∨ 2 ^ (52 + shift) ≤ n * unitsPerOne / d := by
      rw [Nat.le_div_iff_mul_le hd, Nat.pow_add, Nat.mul_assoc, Nat.mul_comm _ d, ← hgap]
      exact full
    generalize n * unitsPerOne / d = whole at upper lower
    obtain rfl | hne := eq_or_ne whole 0
    · rcases lower with rfl | lower
      · rfl
      · exact absurd lower (Nat.not_le_of_lt (Nat.two_pow_pos _))
    · have := (Nat.log2_lt hne).mpr upper
      rw [← Nat.le_log2 hne] at lower
      omega
  have hround : roundHalfEven (n * unitsPerOne) (d * Nat.pow 2 shift) = k := by
    rw [Nat.pow_eq, ← hgap]
    exact roundHalfEven_eq low high
  rw [nearest, hshift, hround, Nat.min_eq_right hinfinity]

/-- **A fraction close to a double is rounded to it.** Close means that they differ by less than one
part in `2 ^ 54`. -/
theorem nearest_eq_of_close (hw : w < infinity)
    (low : 2 ^ 54 * (units w * d) < 2 ^ 54 * (n * unitsPerOne) + units w * d)
    (high : 2 ^ 54 * (n * unitsPerOne) < 2 ^ 54 * (units w * d) + units w * d) :
    nearest n d = w := by
  obtain ⟨shift, k, hword, hunits, hlt, hfull⟩ := exists_shift_significand w
  have hweight : exponentWeight = 2 ^ 52 := rfl
  -- the gap between two significands
  obtain ⟨gap, hgap⟩ : ∃ gap, gap = d * 2 ^ shift := ⟨_, rfl⟩
  have hsize : units w * d = k * gap := by rw [hunits, hgap]; ring
  rw [hsize] at low high
  have hroom : k * gap + gap ≤ 2 ^ 53 * gap := by
    rw [← Nat.succ_mul]
    exact Nat.mul_le_mul_right gap (by omega)
  have hpos : 0 < gap := Nat.pos_of_ne_zero fun h => by simp [h] at high
  by_cases full : shift = 0 ∨ 2 ^ 52 * gap ≤ n * unitsPerOne
  · rw [hword, nearest_eq_of_shift hgap] <;> omega
  · -- the fraction is just below a power of two, where the gap is a half
    obtain ⟨s, rfl⟩ := Nat.exists_eq_add_one_of_ne_zero fun h => full (Or.inl h)
    have hk : k = exponentWeight := by
      by_contra hne
      have := Nat.mul_le_mul_right gap (show 2 ^ 52 + 1 ≤ k by omega)
      omega
    have hhalf : gap = 2 * (d * 2 ^ s) := by rw [hgap]; ring
    have hproduct : 2 * exponentWeight * (d * 2 ^ s) = k * gap := by rw [hhalf, hk]; ring
    have hdouble : k * gap = 2 ^ 52 * gap := by rw [hk, hweight]
    have hsame : w = s * exponentWeight + 2 * exponentWeight := by rw [hword, hk]; ring
    rw [hsame]
    refine nearest_eq_of_shift rfl ?_ (Or.inr ?_) ?_ ?_ (by rw [← hsame]; omega) <;> omega

/-- The rational number that a finite word stands for. -/
def value (word : Nat) : ℚ :=
  units word / unitsPerOne

theorem units_pos (hw : 0 < w) : 0 < units w := by
  obtain ⟨shift, k, hword, hunits, -, hfull⟩ := exists_shift_significand w
  have hweight : 0 < exponentWeight := by decide
  have hk : 0 < k := by
    rcases hfull with rfl | hfull
    · omega
    · omega
  rw [hunits]
  exact Nat.mul_pos hk (Nat.two_pow_pos shift)

theorem exists_units_lt (hw : w < infinity) : ∃ k < 2100, units w < 2 ^ k := by
  obtain ⟨shift, k, hword, hunits, hk, -⟩ := exists_shift_significand w
  have hshift : shift < 2047 := by
    by_contra h
    have := Nat.mul_le_mul_right exponentWeight (Nat.le_of_not_lt h)
    rw [infinity] at hw
    omega
  refine ⟨53 + shift, by omega, ?_⟩
  rw [hunits, Nat.pow_add]
  exact Nat.mul_lt_mul_of_pos_right hk (Nat.two_pow_pos shift)

/-- Doubles lie between powers of ten whose exponents have only a few digits. -/
theorem exists_pow_le_value (hw : 0 < w) (hlt : w < infinity) : ∃ j k : Nat, j < 2100 ∧ k < 2100 ∧
    (10 : ℚ) ^ (-j : ℤ) ≤ value w ∧ value w < 10 ^ (k : ℤ) := by
  have hunits : (1 : ℚ) ≤ units w := Nat.one_le_cast.mpr (units_pos hw)
  have hone : (1 : ℚ) ≤ unitsPerOne := Nat.one_le_cast.mpr unitsPerOne_pos
  obtain ⟨j, hj, hbelow⟩ : ∃ j < 2100, unitsPerOne = 2 ^ j := ⟨1074, by omega, unitsPerOne_eq⟩
  obtain ⟨k, hk, habove⟩ := exists_units_lt hlt
  have two_pow_le : ∀ n : Nat, (2 : ℚ) ^ n ≤ 10 ^ n := fun n =>
    pow_le_pow_left₀ (by norm_num) (by norm_num) n
  have hbelow' : (unitsPerOne : ℚ) = 2 ^ j := by rw [hbelow, Nat.cast_pow, Nat.cast_ofNat]
  have habove' : (units w : ℚ) < 2 ^ k := mod_cast habove
  refine ⟨j, k, hj, hk, ?_, ?_⟩
  · rw [zpow_neg, zpow_natCast, value, le_div_iff₀ (by linarith), inv_mul_le_iff₀ (by positivity)]
    rw [hbelow']
    exact (two_pow_le j).trans (le_mul_of_one_le_right (by positivity) hunits)
  · rw [zpow_natCast]
    calc value w ≤ units w := div_le_self (by linarith) hone
      _ < 2 ^ k := habove'
      _ ≤ 10 ^ k := two_pow_le k

/-- **A fraction close to a double is rounded to it.** Close means that they differ by less than one
part in `2 ^ 54`. -/
theorem nearest_eq_of_abs_sub_lt (hd : 0 < d) (hw : w < infinity)
    (h : |(n / d : ℚ) - value w| < value w / 2 ^ 54) : nearest n d = w := by
  have hd' : (0 : ℚ) < d := Nat.cast_pos.mpr hd
  have hu : (0 : ℚ) < unitsPerOne := Nat.cast_pos.mpr unitsPerOne_pos
  have hfraction : (n / d : ℚ) = n * unitsPerOne / (d * unitsPerOne) := by
    rw [mul_div_mul_right _ _ hu.ne']
  have hvalue : value w = units w * d / (d * unitsPerOne) := by
    rw [value, mul_comm (d : ℚ), mul_div_mul_right _ _ hd'.ne']
  rw [hfraction, hvalue, ← sub_div, abs_div, abs_of_pos (mul_pos hd' hu), div_right_comm,
    div_lt_div_iff_of_pos_right (mul_pos hd' hu), abs_sub_lt_iff] at h
  apply nearest_eq_of_close hw <;> generalize unitsPerOne = u at *
  · have low : (2 ^ 54 * (units w * d) : ℚ) < 2 ^ 54 * (n * u) + units w * d := by linarith
    exact_mod_cast low
  · have high : (2 ^ 54 * (n * u) : ℚ) < 2 ^ 54 * (units w * d) + units w * d := by linarith
    exact_mod_cast high

/-- A fraction below half a unit is rounded to zero. -/
theorem nearest_eq_zero (h : 2 * (n * unitsPerOne) < d) : nearest n d = 0 := by
  have hgap : d = d * 2 ^ 0 := (Nat.mul_one d).symm
  have hzero := nearest_eq_of_shift (n := n) (k := 0) hgap (by omega) (Or.inl rfl) (by omega)
    (by omega) (Nat.zero_le _)
  rw [hzero, Nat.zero_mul]

/-- A fraction above all doubles is rounded to infinity. -/
theorem nearest_eq_infinity {j : Nat} (hd : 0 < d) (hj : 1025 ≤ j) (h : 2 ^ j * d ≤ n) :
    nearest n d = infinity := by
  have hwhole : 2 ^ (j + 1074) ≤ n * unitsPerOne / d := by
    rw [Nat.le_div_iff_mul_le hd, pow_add, Nat.mul_right_comm, unitsPerOne_eq]
    exact Nat.mul_le_mul_right _ h
  have hne : n * unitsPerOne / d ≠ 0 := (Nat.lt_of_lt_of_le (Nat.two_pow_pos _) hwhole).ne'
  have hlog := (Nat.le_log2 hne).mpr hwhole
  have hshift : 2047 * exponentWeight ≤ ((n * unitsPerOne / d).log2 - 52) * exponentWeight :=
    Nat.mul_le_mul_right _ (by omega)
  exact Nat.min_eq_left (Nat.le_trans hshift (Nat.le_add_right _ _))

theorem two_pow_le_ten_pow (k : Nat) : 2 ^ (3 * k) ≤ 10 ^ k := by
  rw [Nat.pow_mul]
  exact Nat.pow_le_pow_left (by decide) k

/-- A number with very many zeros behind it is rounded to infinity. -/
theorem nearest_mul_ten_pow_eq_infinity {c k : Nat} (hc : c ≠ 0) (hk : 400 < k) :
    nearest (c * 10 ^ k) 1 = infinity := by
  refine nearest_eq_infinity (j := 3 * k) Nat.one_pos (by omega) ?_
  rw [Nat.mul_one]
  exact (two_pow_le_ten_pow k).trans (Nat.le_mul_of_pos_left _ (Nat.pos_of_ne_zero hc))

/-- A number behind very many zeros, more than it has digits of its own, is rounded to zero. -/
theorem nearest_ten_pow_eq_zero {c k : Nat} (hk : 400 + c.log2 < k) : nearest c (10 ^ k) = 0 := by
  refine nearest_eq_zero ?_
  calc 2 * (c * unitsPerOne)
      < 2 * (2 ^ (c.log2 + 1) * unitsPerOne) := by
        have := Nat.mul_lt_mul_of_pos_right (Nat.lt_log2_self (n := c)) unitsPerOne_pos
        omega
    _ = 2 ^ (c.log2 + 1 + 1074 + 1) := by
        rw [Nat.pow_succ 2 (c.log2 + 1 + 1074), Nat.pow_add _ _ 1074, Nat.mul_comm 2,
          unitsPerOne_eq]
    _ ≤ 2 ^ (3 * k) := Nat.pow_le_pow_right (by decide) (by omega)
    _ ≤ 10 ^ k := two_pow_le_ten_pow k

end Binary64

theorem ten_pow_mul_zpow {n : Nat} {a b : Int} (h : n + a = b) :
    (10 : ℚ) ^ n * 10 ^ a = 10 ^ b := by
  rw [← h, zpow_add₀ (by norm_num), zpow_natCast]

namespace Decimal

variable {d d' : Decimal}

/-- The number that a decimal stands for, sign aside. -/
def magnitude (d : Decimal) : ℚ :=
  d.coefficient * 10 ^ d.exponent

/-- **The double nearest to a decimal** is that nearest to a fraction of the same value, also where
the powers of ten are not computed. -/
theorem exists_nearestWord_eq (d : Decimal) :
    ∃ n m : Nat, 0 < m ∧ d.magnitude = n / m ∧ d.nearestWord = Binary64.nearest n m := by
  obtain ⟨negative, c, e⟩ := d
  rw [nearestWord, magnitude]
  dsimp only
  obtain ⟨k, rfl | rfl⟩ := e.eq_nat_or_neg
  · refine ⟨c * 10 ^ k, 1, Nat.one_pos, by simp, ?_⟩
    split
    · next hc => rw [hc, Nat.zero_mul, Binary64.nearest_eq_zero (by omega)]
    · next hc =>
      split
      · exact (Binary64.nearest_mul_ten_pow_eq_infinity hc (by omega)).symm
      · rw [if_neg (by omega), if_pos (by omega)]
        rfl
  · refine ⟨c, 10 ^ k, Nat.pow_pos (by decide), by simp [div_eq_mul_inv], ?_⟩
    split
    · next hc => rw [hc, Binary64.nearest_eq_zero (by simp)]
    · rw [if_neg (by omega)]
      split
      · exact (Binary64.nearest_ten_pow_eq_zero (by omega)).symm
      · split
        · next hk =>
          obtain rfl : k = 0 := by omega
          exact congrArg₂ Binary64.nearest (by simp) rfl
        · simp

/-- Decimals of the same value have the same nearest double. -/
theorem nearestWord_congr (h : d.magnitude = d'.magnitude) : d.nearestWord = d'.nearestWord := by
  obtain ⟨n, m, hm, hvalue, hword⟩ := exists_nearestWord_eq d
  obtain ⟨n', m', hm', hvalue', hword'⟩ := exists_nearestWord_eq d'
  rw [hword, hword']
  refine Binary64.nearest_congr hm hm' ?_
  have hne : (m : ℚ) ≠ 0 := Nat.cast_ne_zero.mpr hm.ne'
  have hne' : (m' : ℚ) ≠ 0 := Nat.cast_ne_zero.mpr hm'.ne'
  rw [hvalue, hvalue', div_eq_div_iff hne hne'] at h
  exact_mod_cast h

/-- A decimal close to a double is rounded to it. -/
theorem nearestWord_eq_of_abs_sub_lt {w : Nat} (hw : w < Binary64.infinity)
    (h : |d.magnitude - Binary64.value w| < Binary64.value w / 2 ^ 54) : d.nearestWord = w := by
  obtain ⟨n, m, hm, hvalue, hword⟩ := exists_nearestWord_eq d
  rw [hword]
  exact Binary64.nearest_eq_of_abs_sub_lt hm hw (hvalue ▸ h)

end Decimal

end Quadrille
