import Mathlib.Algebra.Order.Field.Power
import Mathlib.Algebra.Order.Field.Rat
import Mathlib.Tactic.NormNum
import Mathlib.Tactic.Ring
import Quadrille.Number.Display
import Quadrille.Proofs.Number.Digits
import Quadrille.Proofs.Number.Rounding
import Quadrille.Proofs.Text.Runs

/-!
# Layouts of numbers

The text of a number is laid out in one of four ways: with zeros between the point and the digits,
with zeros behind the digits, with the point among the digits, or with the exponent written out.
Each is the text of a numeral in its plainest form (`Written.spelled`), and so it is read as this
numeral (`Written.read?_spelled`), whichever the layout. What is left to show of a layout is that
its numeral has the value of the digits.

## Main definitions

* `Written.spelled` — the plainest text of a numeral
* `Scientific.written` — the numeral that a layout is the text of

## Main results

* `Written.read?_spelled` — a numeral is read back from its plainest text
* `Scientific.layout_eq_spelled`, `Scientific.read?_layout` — a laid out number is read back
* `Scientific.magnitude_written` — and it has the value of the digits
-/

namespace Quadrille

theorem mul_ten_pow_mul_zpow (c k : Nat) (e : Int) :
    ((c * 10 ^ k : ℕ) : ℚ) * 10 ^ e = c * 10 ^ (e + k) := by
  rw [Nat.cast_mul, Nat.cast_pow, Nat.cast_ofNat, mul_assoc, ten_pow_mul_zpow (Int.add_comm _ _)]

namespace Numeral

theorem splitSign_append {negative : Bool} {cs : List Char}
    (h : ∀ c ∈ cs.head?, c ≠ '-' ∧ c ≠ '+') :
    splitSign ((if negative then ['-'] else []) ++ cs) = (negative, cs) := by
  cases negative with
  | true => rfl
  | false =>
    cases cs with
    | nil => rfl
    | cons c cs =>
      obtain ⟨hminus, hplus⟩ := h c rfl
      simp [splitSign, hminus, hplus]

/-- Digits are taken apart at the point, and digits alone are all before it. -/
theorem splitPoint_append (whole fraction : List Digit) {rest : List Char}
    (h : ∀ c ∈ rest.head?, Digit.ofChar? c = none ∧ c ≠ '.') :
    splitPoint (Digits.toChars whole ++
        ((if fraction = [] then [] else '.' :: Digits.toChars fraction) ++ rest)) =
      (whole, fraction, rest) := by
  have hrest : ∀ c ∈ rest.head?, Digit.ofChar? c = none := fun c hc => (h c hc).1
  by_cases hfraction : fraction = []
  · rw [if_pos hfraction, List.nil_append, splitPoint, Digits.leading_toChars_append whole hrest,
      hfraction]
    split
    · next heq =>
      obtain ⟨-, rfl⟩ := Prod.mk.inj heq
      exact absurd rfl (h '.' rfl).2
    · next heq =>
      obtain ⟨rfl, rfl⟩ := Prod.mk.inj heq
      rfl
  · have hpoint : ∀ c ∈ ('.' :: (Digits.toChars fraction ++ rest)).head?,
        Digit.ofChar? c = none := by
      intro c hc
      obtain rfl := Option.some.inj hc
      decide
    rw [if_neg hfraction, List.cons_append, splitPoint, Digits.leading_toChars_append whole hpoint]
    exact congrArg (Prod.mk whole) (Digits.leading_toChars_append fraction hrest)

theorem readPower?_cons {negative : Bool} {power : List Digit} (h : power ≠ []) :
    readPower? ('E' :: (if negative then '-' else '+') :: Digits.toChars power) =
      some (negative, power) := by
  have hread : Digits.leading (Digits.toChars power) = (power, []) := by
    have hread := @Digits.leading_toChars_append power [] (by simp)
    rwa [List.append_nil] at hread
  obtain ⟨d, ds, rfl⟩ := List.exists_cons_of_ne_nil h
  cases negative <;> simp [readPower?, splitSign, hread]

end Numeral

namespace Written

variable {w : Written}

/-- The power of ten at the end of a numeral, with a sign, if there is one. -/
def spelledPower (w : Written) : List Char :=
  if w.power = [] then []
  else 'E' :: (if w.powerNegative then '-' else '+') :: Digits.toChars w.power

/-- A numeral without its sign, and with a point only if digits follow it. -/
def spelledUnsigned (w : Written) : List Char :=
  Digits.toChars w.whole ++
    ((if w.fraction = [] then [] else '.' :: Digits.toChars w.fraction) ++ w.spelledPower)

/-- A numeral in its plainest form. -/
def spelled (w : Written) : List Char :=
  (if w.negative then ['-'] else []) ++ w.spelledUnsigned

theorem head?_spelledPower {c : Char} (h : c ∈ w.spelledPower.head?) : c = 'E' := by
  rw [spelledPower] at h
  split at h
  · simp at h
  · exact (Option.some.inj h).symm

theorem readDigits?_spelledUnsigned (hwhole : w.whole ≠ [])
    (hpower : w.power = [] → w.powerNegative = false) :
    Numeral.readDigits? w.negative w.spelledUnsigned = some w := by
  have hpoint : Numeral.splitPoint w.spelledUnsigned = (w.whole, w.fraction, w.spelledPower) := by
    refine Numeral.splitPoint_append w.whole w.fraction fun c hc => ?_
    obtain rfl := head?_spelledPower hc
    decide
  have hread : Numeral.readPower? w.spelledPower = some (w.powerNegative, w.power) := by
    rw [spelledPower]
    split
    · next h => rw [Numeral.readPower?, h, hpower h]
    · next h => exact Numeral.readPower?_cons h
  rw [Numeral.readDigits?, hpoint]
  split
  · next h => exact absurd (congrArg Prod.fst h) hwhole
  · next h =>
    cases h
    rw [hread]
    rfl

/-- **A numeral is read back from its plainest form.** -/
theorem read?_spelled (hwhole : w.whole ≠ []) (hpower : w.power = [] → w.powerNegative = false) :
    Numeral.read? w.spelled = some (.finite w) := by
  have hsign : Numeral.splitSign w.spelled = (w.negative, w.spelledUnsigned) := by
    refine Numeral.splitSign_append fun c hc => ?_
    obtain ⟨d, ds, hcons⟩ := List.exists_cons_of_ne_nil hwhole
    obtain rfl : d.toChar = c := by simpa [spelledUnsigned, hcons, Digits.toChars] using hc
    exact ⟨d.toChar_ne_minus, d.toChar_ne_plus⟩
  rw [Numeral.read?, hsign]
  dsimp only
  rw [readDigits?_spelledUnsigned hwhole hpower]

theorem not_isBlank_of_mem_spelled {c : Char} (h : c ∈ w.spelled) : Text.isBlank c = false := by
  have digits : ∀ {ds : List Digit}, c ∈ Digits.toChars ds → Text.isBlank c = false :=
    Digits.not_isBlank_of_mem_toChars
  simp only [spelled, spelledUnsigned, spelledPower, List.mem_append, List.mem_ite_nil_right,
    List.mem_ite_nil_left, List.mem_cons, List.not_mem_nil, or_false] at h
  obtain ⟨-, rfl⟩ | h | ⟨-, rfl | h⟩ | ⟨-, rfl | rfl | h⟩ := h
  · decide
  · exact digits h
  · decide
  · exact digits h
  · decide
  · split <;> decide
  · exact digits h

end Written

namespace Scientific

variable {digits : List Digit} {exponent : Int}

/-- Zero written in so many digits. -/
def zeros (n : Nat) : List Digit :=
  Digits.ofNat n 0

@[simp]
theorem zeros_eq_replicate (n : Nat) : zeros n = List.replicate n 0 := by
  induction n with
  | zero => rfl
  | succ n ih =>
    rw [zeros, Digits.ofNat, Nat.zero_div, ← zeros, ih, List.replicate_succ']
    rfl

/-- The numeral of digits around a point that stands behind the digit of weight one. -/
def writtenFixed (negative : Bool) (digits : List Digit) (exponent : Int) : Written :=
  if exponent < 0 then
    ⟨negative, zeros 1, zeros (-exponent - 1).toNat ++ digits, false, []⟩
  else
    let whole := exponent.toNat + 1
    ⟨negative, digits.take whole ++ zeros (whole - digits.length), digits.drop whole, false, []⟩

/-- The numeral of digits with the point behind the first, and the exponent written out. -/
def writtenExponent (negative : Bool) (digits : List Digit) (exponent : Int) : Written :=
  ⟨negative, digits.take 1, digits.drop 1, exponent < 0,
    Digits.ofNat (max 2 (Digits.count exponent.natAbs)) exponent.natAbs⟩

/-- The numeral whose text `layout` gives. -/
def written (precision : Nat) (negative : Bool) (s : Scientific) : Written :=
  let digits := Digits.dropTrailingZeros s.digits
  if -5 < s.exponent ∧ s.exponent < precision then writtenFixed negative digits s.exponent
  else writtenExponent negative digits s.exponent

theorem toChar_zero : Digit.toChar 0 = '0' :=
  rfl

theorem spelledUnsigned_writtenFixed (negative : Bool) (h : digits ≠ []) :
    (writtenFixed negative digits exponent).spelledUnsigned = layoutFixed digits exponent := by
  rw [writtenFixed, layoutFixed]
  split
  · simp [Written.spelledUnsigned, Written.spelledPower, h, Digits.toChars, toChar_zero]
  · dsimp only
    split
    · next hshort =>
      simp [Written.spelledUnsigned, Written.spelledPower, Digits.toChars, toChar_zero,
        List.take_of_length_le hshort, List.drop_eq_nil_of_le hshort]
    · next hlong =>
      have hzeros : exponent.toNat + 1 - digits.length = 0 := by omega
      have hfraction : digits.drop (exponent.toNat + 1) ≠ [] := mt List.drop_eq_nil_iff.mp hlong
      simp [Written.spelledUnsigned, Written.spelledPower, hzeros, hfraction]

theorem value_atLeastTwoDigits (n : Nat) :
    Digits.value (Digits.ofNat (max 2 (Digits.count n)) n) = n := by
  have fits : Nat.pow 10 (Digits.count n) ≤ Nat.pow 10 (max 2 (Digits.count n)) :=
    Nat.pow_le_pow_right (by decide) (Nat.le_max_right _ _)
  rw [Digits.value_ofNat, Nat.mod_eq_of_lt ((Digits.lt_pow_count n).trans_le fits)]

theorem power_writtenExponent_ne_nil (negative : Bool) :
    (writtenExponent negative digits exponent).power ≠ [] := by
  rw [writtenExponent, ← List.length_pos_iff, Digits.length_ofNat]
  omega

theorem spelledUnsigned_writtenExponent (negative : Bool) :
    (writtenExponent negative digits exponent).spelledUnsigned =
      layoutExponent digits exponent := by
  have hpower : (writtenExponent negative digits exponent).power ≠ [] :=
    power_writtenExponent_ne_nil negative
  rw [Written.spelledUnsigned, Written.spelledPower, if_neg hpower]
  simp [writtenExponent, layoutExponent, atLeastTwoDigits]

/-- The two layouts have in common that they begin with a digit, and that a power is only signed if
there is one. -/
theorem written_wellFormed (precision : Nat) (negative : Bool) {s : Scientific}
    (h : Digits.dropTrailingZeros s.digits ≠ []) :
    (s.written precision negative).negative = negative ∧
      (s.written precision negative).whole ≠ [] ∧
      ((s.written precision negative).power = [] →
        (s.written precision negative).powerNegative = false) := by
  rw [written]
  split
  · rw [writtenFixed]
    split
    · exact ⟨rfl, List.cons_ne_nil _ _, fun _ => rfl⟩
    · exact ⟨rfl, by simp [h], fun _ => rfl⟩
  · refine ⟨rfl, by simp [writtenExponent, h], fun hpower => ?_⟩
    exact absurd hpower (power_writtenExponent_ne_nil negative)

/-- **The text of digits** is that of a numeral in its plainest form. -/
theorem layout_eq_spelled {s : Scientific} (precision : Nat) (negative : Bool)
    (h : Digits.dropTrailingZeros s.digits ≠ []) :
    s.layout precision negative = (s.written precision negative).spelled := by
  rw [layout, Written.spelled, (written_wellFormed precision negative h).1, written]
  congr 1
  split
  · rw [spelledUnsigned_writtenFixed negative h]
  · rw [spelledUnsigned_writtenExponent]

/-- **A laid out number is read back** as its numeral. -/
theorem read?_layout {s : Scientific} (precision : Nat) (negative : Bool)
    (h : Digits.dropTrailingZeros s.digits ≠ []) :
    Numeral.read? (s.layout precision negative) =
      some (.finite (s.written precision negative)) := by
  rw [layout_eq_spelled precision negative h]
  obtain ⟨-, hwhole, hpower⟩ := written_wellFormed precision negative h
  exact Written.read?_spelled hwhole hpower

theorem trim_layout {s : Scientific} (precision : Nat) (negative : Bool)
    (h : Digits.dropTrailingZeros s.digits ≠ []) :
    Text.trim (s.layout precision negative) = s.layout precision negative := by
  rw [layout_eq_spelled precision negative h]
  exact Text.trim_eq_self fun c => Written.not_isBlank_of_mem_spelled

theorem magnitude_writtenFixed (negative : Bool) (digits : List Digit) (exponent : Int) :
    (writtenFixed negative digits exponent).toDecimal.magnitude =
      Digits.value digits * 10 ^ (exponent - (digits.length - 1) : ℤ) := by
  rw [writtenFixed]
  split
  · next h =>
    have hvalue : Digits.value (zeros 1 ++ (zeros (-exponent - 1).toNat ++ digits)) =
        Digits.value digits := by
      simp only [zeros_eq_replicate, Digits.value_replicate_append]
    simp only [Written.toDecimal, Written.withPower, Decimal.magnitude, hvalue]
    congr 2
    simp [Digits.value]
    omega
  · next h =>
    by_cases hlong : digits.length ≤ exponent.toNat + 1
    · have hexponent : exponent - (digits.length - 1) =
          -(0 : ℕ) + (exponent.toNat + 1 - digits.length : ℕ) := by omega
      rw [hexponent, ← mul_ten_pow_mul_zpow, ← Digits.value_append_replicate]
      simp [Written.toDecimal, Written.withPower, Decimal.magnitude, Digits.value,
        List.take_of_length_le hlong, List.drop_eq_nil_of_le hlong]
    · have hzeros : exponent.toNat + 1 - digits.length = 0 := by omega
      simp only [Written.toDecimal, Written.withPower, Decimal.magnitude, hzeros,
        zeros_eq_replicate, List.replicate_zero, List.append_nil, List.take_append_drop,
        List.length_drop]
      congr 2
      simp [Digits.value]
      omega

theorem magnitude_writtenExponent (negative : Bool) {digits : List Digit} (h : digits ≠ [])
    (exponent : Int) :
    (writtenExponent negative digits exponent).toDecimal.magnitude =
      Digits.value digits * 10 ^ (exponent - (digits.length - 1) : ℤ) := by
  have hlength := List.length_pos_iff.mpr h
  simp only [writtenExponent, Written.toDecimal, Written.withPower, Decimal.magnitude,
    List.take_append_drop, value_atLeastTwoDigits, List.length_drop, decide_eq_true_eq]
  congr 2
  split <;> omega

/-- **The numeral keeps the value** of the digits. -/
theorem magnitude_written (precision : Nat) (negative : Bool) {s : Scientific}
    (h : Digits.dropTrailingZeros s.digits ≠ []) :
    (s.written precision negative).toDecimal.magnitude = (s.toDecimal negative).magnitude := by
  obtain ⟨zeros, hzeros⟩ := Digits.exists_dropTrailingZeros_append s.digits
  have hvalue : Digits.value s.digits =
      Digits.value (Digits.dropTrailingZeros s.digits) * 10 ^ zeros := by
    rw [← Digits.value_append_replicate, hzeros]
  have hlength : s.digits.length = (Digits.dropTrailingZeros s.digits).length + zeros := by
    rw [← List.length_replicate (n := zeros) (a := (0 : Digit)), ← List.length_append, hzeros]
  have hsame : (s.toDecimal negative).magnitude = Digits.value (Digits.dropTrailingZeros s.digits) *
      10 ^ (s.exponent - ((Digits.dropTrailingZeros s.digits).length - 1) : ℤ) := by
    rw [toDecimal, Decimal.magnitude, hvalue, mul_ten_pow_mul_zpow, hlength]
    congr 2
    push_cast
    ring
  rw [hsame, written]
  split
  · exact magnitude_writtenFixed negative _ _
  · exact magnitude_writtenExponent negative h _

end Scientific

end Quadrille
