import Quadrille.Proofs.Number.Layout

/-!
# The notation of numbers

The text of a number denotes it exactly. Digits are rounded before they are laid out; laying them
out loses nothing and adds nothing, although the digits that are left when the zeros at their end
have been dropped may stop short of the point, reach just up to it or go past it, and although the
point may lie before all of them. Nor is there a character in the text that could be left out: no
zero at the end of a fraction, no point without a fraction, and no zero in front but the one that a
point needs.

What a numeral denotes is said here as it is read off the page: the whole part and, with each digit
worth a tenth of the one before it, the fraction, times a power of ten.

## Main definitions

* `Digits.fraction`, `Written.toRat` — the value of digits behind a point, and of a numeral
* `Written.IsFixed`, `Written.IsExponential` — the two notations
* `Written.Plain` — a numeral without superfluous zeros
* `Scientific.Notates` — a text is the notation of a number

## Main results

* `Written.toRat_eq` — the value of a numeral is that of the decimal that it is read as
* `Scientific.plain_written` — laid out numbers have no superfluous zeros
* `Scientific.exists_notates_layout` — laid out numbers are the notation of their digits
-/

namespace Quadrille

/-- The sign of a number as a factor. -/
def signFactor (negative : Bool) : ℚ :=
  if negative then -1 else 1

namespace Digits

/-- The number that digits write behind a point. -/
def fraction (ds : List Digit) : ℚ :=
  ds.foldr (fun d rest => ((d.val : ℚ) + rest) / 10) 0

theorem value_cons (d : Digit) (ds : List Digit) :
    value (d :: ds) = d.val * 10 ^ ds.length + value ds := by
  have hone : value [d] = d.val := by simp [value]
  rw [← List.singleton_append, value_append, hone]

/-- Behind a point, each digit takes the number of the run down by a power of ten. -/
theorem fraction_eq (ds : List Digit) : fraction ds = value ds / 10 ^ ds.length := by
  induction ds with
  | nil => simp [fraction, value]
  | cons d ds ih =>
    have hstep : fraction (d :: ds) = ((d.val : ℚ) + fraction ds) / 10 := rfl
    have hpow : (10 : ℚ) ^ ds.length ≠ 0 := by positivity
    rw [hstep, ih, value_cons, List.length_cons]
    push_cast
    field_simp
    ring

/-- What is left has no zero at its end. -/
theorem getLast?_dropTrailingZeros (ds : List Digit) :
    (dropTrailingZeros ds).getLast? ≠ some 0 := by
  rw [dropTrailingZeros, List.getLast?_reverse]
  intro h
  have hkept := List.head?_dropWhile_not (· == (0 : Digit)) ds.reverse
  rw [h] at hkept
  simp at hkept

/-- In more than two digits, a number begins with one that is not zero. -/
theorem head?_atLeastTwo {n : Nat} (h : (ofNat (max 2 (count n)) n).head? = some 0) :
    (ofNat (max 2 (count n)) n).length = 2 := by
  rw [length_ofNat]
  by_contra hlong
  have hmax : max 2 (count n) = count n := by omega
  have hpos : 0 < n := by
    refine Nat.pos_of_ne_zero ?_
    rintro rfl
    have hzero : count 0 = 1 := by rw [count, if_pos (by decide)]
    rw [hzero] at hlong
    exact hlong rfl
  obtain ⟨k, hk, hle, -⟩ := exists_count_eq hpos
  have hlength : (ofNat (count n) n).length = k + 1 := (length_ofNat _ _).trans hk
  obtain ⟨d, hd, hne⟩ := exists_head?_ne_zero hlength (by rwa [value_ofNat_count])
  rw [hmax] at h
  exact hne (Option.some.inj (hd.symm.trans h))

end Digits

namespace Written

variable {w : Written}

/-- The number that a numeral denotes. -/
def toRat (w : Written) : ℚ :=
  signFactor w.negative * (Digits.value w.whole + Digits.fraction w.fraction) *
    10 ^ (if w.powerNegative then -(Digits.value w.power : ℤ) else Digits.value w.power)

/-- The value of a numeral is that of the decimal that it is read as. -/
theorem toRat_eq (w : Written) : w.toRat = signFactor w.negative * w.toDecimal.magnitude := by
  have hten : (10 : ℚ) ≠ 0 := by norm_num
  rw [toRat, toDecimal, withPower, Decimal.magnitude, Digits.fraction_eq, Digits.value_append,
    zpow_sub₀ hten, zpow_natCast]
  have hpow : (10 : ℚ) ^ w.fraction.length ≠ 0 := by positivity
  push_cast
  field_simp

/-- A numeral without a power of ten. -/
def IsFixed (w : Written) : Prop :=
  w.power = []

/-- A numeral with one digit before the point, and a power of ten in two digits at least. -/
def IsExponential (w : Written) : Prop :=
  w.whole.length = 1 ∧ 2 ≤ w.power.length

/-- A numeral without superfluous zeros: none in front of other digits, none at the end of the
fraction, and none in front of a power of ten but to make two digits of one. -/
structure Plain (w : Written) : Prop where
  whole_ne_nil : w.whole ≠ []
  leading : w.whole.head? = some 0 → w.whole = [0]
  trailing : w.fraction.getLast? ≠ some 0
  power : w.power.head? = some 0 → w.power.length = 2

end Written

namespace Scientific

variable {digits : List Digit} {exponent : Int}

theorem plain_writtenFixed (negative : Bool) (exponent : Int)
    (hhead : ∃ d ∈ digits.head?, d ≠ 0) (hlast : digits.getLast? ≠ some 0) :
    (writtenFixed negative digits exponent).Plain := by
  obtain ⟨d, hd, hne⟩ := hhead
  obtain ⟨ds, rfl⟩ := List.head?_eq_some_iff.mp hd
  rw [writtenFixed]
  split
  · refine ⟨List.cons_ne_nil _ _, fun _ => rfl, ?_, by simp⟩
    rw [List.getLast?_append_of_ne_nil _ (List.cons_ne_nil d ds)]
    exact hlast
  · refine ⟨by simp, fun h => ?_, fun h => ?_, by simp⟩
    · have hfirst : some d = some 0 := h
      exact absurd (Option.some.inj hfirst) hne
    · dsimp only at h
      rw [List.getLast?_drop] at h
      split at h
      · simp at h
      · exact hlast h

theorem plain_writtenExponent (negative : Bool) (exponent : Int)
    (hhead : ∃ d ∈ digits.head?, d ≠ 0) (hlast : digits.getLast? ≠ some 0) :
    (writtenExponent negative digits exponent).Plain := by
  obtain ⟨d, hd, hne⟩ := hhead
  obtain ⟨ds, rfl⟩ := List.head?_eq_some_iff.mp hd
  refine ⟨by simp [writtenExponent], fun h => ?_, fun h => ?_, Digits.head?_atLeastTwo⟩
  · have hfirst : some d = some 0 := h
    exact absurd (Option.some.inj hfirst) hne
  · rw [writtenExponent] at h
    dsimp only at h
    rw [List.getLast?_drop] at h
    split at h
    · simp at h
    · exact hlast h

/-- **Laid out numbers have no superfluous zeros.** -/
theorem plain_written (precision : Nat) (negative : Bool) {s : Scientific}
    (h : ∃ d ∈ s.digits.head?, d ≠ 0) : (s.written precision negative).Plain := by
  have hhead := Digits.head?_dropTrailingZeros h
  have hlast := Digits.getLast?_dropTrailingZeros s.digits
  rw [written]
  split
  · exact plain_writtenFixed negative s.exponent hhead hlast
  · exact plain_writtenExponent negative s.exponent hhead hlast

/-- The two notations, and when each of them is used. -/
theorem notation_written (precision : Nat) (negative : Bool) {s : Scientific}
    (h : Digits.dropTrailingZeros s.digits ≠ []) :
    ((s.written precision negative).IsFixed ↔ -5 < s.exponent ∧ s.exponent < precision) ∧
      ((s.written precision negative).IsExponential ↔
        ¬(-5 < s.exponent ∧ s.exponent < precision)) := by
  rw [written]
  split
  · next hfixed =>
    have hpower : (writtenFixed negative (Digits.dropTrailingZeros s.digits) s.exponent).power =
        [] := by
      rw [writtenFixed]
      split <;> rfl
    refine ⟨iff_of_true hpower hfixed, iff_of_false (fun hexp => ?_) (not_not.mpr hfixed)⟩
    have htwo := hexp.2
    rw [hpower] at htwo
    simp at htwo
  · next hexp =>
    refine ⟨iff_of_false (power_writtenExponent_ne_nil negative) hexp, iff_of_true ⟨?_, ?_⟩ hexp⟩
    · have hpos := List.length_pos_iff.mpr h
      rw [writtenExponent, List.length_take]
      omega
    · rw [writtenExponent, Digits.length_ofNat]
      omega

/-- A text is the notation of `± first.rest * 10 ^ exponent`, and that of the numeral `w`: it is the
plainest text of `w` and read as `w`, which has no superfluous zeros; the value is exact; and the
power of ten is written out unless the point falls among `precision` digits or at most four places
before them. -/
structure Notates (precision : Nat) (negative : Bool) (first : Digit) (rest : List Digit)
    (exponent : Int) (text : List Char) (w : Written) : Prop where
  text_eq : text = w.spelled
  read : Numeral.read? text = some (.finite w)
  value : w.toRat = signFactor negative * (first.val + Digits.fraction rest) * 10 ^ exponent
  fixed : w.IsFixed ↔ -5 < exponent ∧ exponent < precision
  exponential : w.IsExponential ↔ ¬(-5 < exponent ∧ exponent < precision)
  plain : w.Plain

/-- **Laying out keeps the value.** The text of digits, the first of which is not zero, is the
notation of the number that they are the digits of. -/
theorem exists_notates_layout (precision : Nat) (negative : Bool) {first : Digit}
    (hfirst : first ≠ 0) (rest : List Digit) (exponent : Int) :
    ∃ w, Notates precision negative first rest exponent
      (layout precision negative ⟨first :: rest, exponent⟩) w := by
  have hhead : ∃ d ∈ (first :: rest).head?, d ≠ 0 := ⟨first, rfl, hfirst⟩
  have hne : Digits.dropTrailingZeros (first :: rest) ≠ [] := by
    obtain ⟨d, hd, -⟩ := Digits.head?_dropTrailingZeros hhead
    rintro hnil
    simp [hnil] at hd
  generalize hs : (⟨first :: rest, exponent⟩ : Scientific) = s
  have hdigits : s.digits = first :: rest := by rw [← hs]
  have hexponent : s.exponent = exponent := by rw [← hs]
  rw [← hdigits] at hhead hne
  obtain ⟨hfixed, hexp⟩ := notation_written precision negative hne
  rw [hexponent] at hfixed hexp
  refine ⟨s.written precision negative, layout_eq_spelled precision negative hne,
    read?_layout precision negative hne, ?_, hfixed, hexp, plain_written precision negative hhead⟩
  have hten : (10 : ℚ) ≠ 0 := by norm_num
  have hpow : (10 : ℚ) ^ rest.length ≠ 0 := by positivity
  have hweight : exponent - ((rest.length + 1 : ℕ) - 1 : ℤ) = exponent - rest.length := by
    push_cast
    ring
  rw [Written.toRat_eq, magnitude_written precision negative hne,
    (written_wellFormed precision negative hne).1, toDecimal, Decimal.magnitude, hdigits, hexponent,
    Digits.value_cons, Digits.fraction_eq, List.length_cons, hweight, zpow_sub₀ hten, zpow_natCast]
  push_cast
  field_simp

/-- Fifteen digits that end in zeros, one place too far behind the point for fixed notation. -/
theorem exists_notates_layout_small :
    (2 : Digit) ≠ 0 ∧
      layout 15 true ⟨2 :: 5 :: List.replicate 13 0, -5⟩ = "-2.5E-05".toList ∧
      ∃ w, Notates 15 true 2 (5 :: List.replicate 13 0) (-5)
        (layout 15 true ⟨2 :: 5 :: List.replicate 13 0, -5⟩) w :=
  ⟨by decide, by decide +kernel, exists_notates_layout 15 true (by decide) _ (-5)⟩

end Scientific

end Quadrille
