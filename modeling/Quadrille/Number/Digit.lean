/-!
# Decimal digits

Runs of decimal digits and the numbers that they write. A run is a list with its most significant
digit first; `Digits.value` and `Digits.ofNat` go between runs and numbers, and `Digits.leading`
takes a run off the front of a text.
-/

namespace Quadrille

/-- A decimal digit. -/
abbrev Digit := Fin 10

namespace Digit

/-- The character of a digit. -/
def toChar (d : Digit) : Char :=
  Char.ofNat ('0'.toNat + d.val)

/-- The digit that a character stands for. Only the ten ASCII characters are digits here. -/
def ofChar? (c : Char) : Option Digit :=
  if h : '0'.toNat ≤ c.toNat ∧ c.toNat ≤ '9'.toNat then
    some ⟨c.toNat - '0'.toNat, by
      have := h.1
      have := h.2
      change c.toNat ≤ 57 at this
      change c.toNat - 48 < 10
      omega⟩
  else
    none

end Digit

namespace Digits

/-- The number that a run of digits writes; the empty run writes zero. -/
def value (ds : List Digit) : Nat :=
  ds.foldl (fun n d => 10 * n + d.val) 0

/-- Once a run has written this much, `cappedValue` passes over the rest of it. -/
def cap : Nat := 65536

/-- The number that a run of digits writes, but with the digits passed over that follow once `cap`
has been reached. -/
def cappedValue (ds : List Digit) : Nat :=
  ds.foldl (fun n d => if n < cap then 10 * n + d.val else n) 0

/-- The last `width` digits of a number, padded with leading zeros. -/
def ofNat : (width n : Nat) → List Digit
  | 0, _ => []
  | width + 1, n => ofNat width (n / 10) ++ [⟨n % 10, Nat.mod_lt _ (by decide)⟩]

/-- The number of decimal digits of a number; zero has one digit. -/
def count (n : Nat) : Nat :=
  if n < 10 then 1 else count (n / 10) + 1

/-- The longest run of digits at the front of a text, and what follows it. -/
def leading : List Char → List Digit × List Char
  | [] => ([], [])
  | c :: cs =>
    match Digit.ofChar? c with
    | some d => (d :: (leading cs).1, (leading cs).2)
    | none => ([], c :: cs)

/-- The characters of a run of digits. -/
def toChars (ds : List Digit) : List Char :=
  ds.map Digit.toChar

/-- A run of digits without the zeros at its end. -/
def dropTrailingZeros (ds : List Digit) : List Digit :=
  (ds.reverse.dropWhile (· == 0)).reverse

@[simp]
theorem length_ofNat (width n : Nat) : (ofNat width n).length = width := by
  induction width generalizing n with
  | zero => rfl
  | succ width ih => simp [ofNat, ih]

theorem value_append_singleton (ds : List Digit) (d : Digit) :
    value (ds ++ [d]) = 10 * value ds + d.val := by
  simp [value]

theorem le_foldl_digits (ds : List Digit) (n : Nat) :
    n ≤ ds.foldl (fun n d => 10 * n + d.val) n := by
  induction ds generalizing n with
  | nil => exact Nat.le_refl n
  | cons d ds ih => exact Nat.le_trans (by omega) (ih (10 * n + d.val))

private theorem foldl_capped_eq (ds : List Digit) (n : Nat)
    (h : ds.foldl (fun n d => 10 * n + d.val) n < 10 * cap) :
    ds.foldl (fun n d => if n < cap then 10 * n + d.val else n) n =
      ds.foldl (fun n d => 10 * n + d.val) n := by
  induction ds generalizing n with
  | nil => rfl
  | cons d ds ih =>
    have reached := le_foldl_digits ds (10 * n + d.val)
    rw [List.foldl_cons] at h ⊢
    rw [List.foldl_cons, if_pos (by omega), ih _ h]

/-- As long as a run writes less than ten times `cap`, no digit of it is passed over. -/
theorem cappedValue_eq_value {ds : List Digit} (h : value ds < 10 * cap) :
    cappedValue ds = value ds :=
  foldl_capped_eq ds 0 h

/-- Padding a number to a fixed width keeps its value as long as it fits. -/
theorem value_ofNat (width n : Nat) : value (ofNat width n) = n % Nat.pow 10 width := by
  induction width generalizing n with
  | zero => simp [ofNat, value, Nat.mod_one]
  | succ width ih =>
    rw [ofNat, value_append_singleton, ih, Nat.pow_eq, Nat.pow_eq, Nat.pow_succ,
      Nat.mul_comm (10 ^ width) 10, Nat.mod_mul, Nat.add_comm]

end Digits

end Quadrille
