import Quadrille.Number.Decimal

/-!
# Rounding to double precision

Every finite double is a whole number of smallest units, the unit being `2 ^ -1074`. This module
reads that number off the bits of a double (`Binary64.units`) and finds the bits of the double
nearest to a fraction (`Binary64.nearest`), both by exact arithmetic on natural numbers.

## Implementation notes

The sign is kept apart throughout, so a *word* below means the low 63 bits of a double. On words the
encoding is monotone: a word with shift `s` and significand `m` is `s * 2 ^ 52 + m` and stands for
`m * 2 ^ s` units, where `m < 2 ^ 53`, and `2 ^ 52 ≤ m` unless `s = 0`. Adding instead of
concatenating is what makes a significand that rounds up to `2 ^ 53` come out as the next shift with
the significand `2 ^ 52`, and subnormal numbers need no case of their own.
-/

namespace Quadrille

/-- The quotient rounded to the nearest whole number, a half going to the even neighbour. -/
def roundHalfEven (n d : Nat) : Nat :=
  let q := n / d
  let r := n % d
  if 2 * r < d ∨ (2 * r = d ∧ q % 2 = 0) then q else q + 1

namespace Binary64

/-- The weight of the exponent in a word, `2 ^ 52`. -/
def exponentWeight : Nat := 0x10000000000000

/-- The weight of the sign in the bits of a double, `2 ^ 63`. -/
def signWeight : Nat := 0x8000000000000000

/-- The word of the infinities. Words above it are no numbers. -/
def infinity : Nat := 0x7FF * exponentWeight

/-- How many smallest units make one. -/
def unitsPerOne : Nat := Nat.pow 2 1074

/-- How many smallest units a finite word stands for. -/
def units (word : Nat) : Nat :=
  let shift := word / exponentWeight - 1
  (word - shift * exponentWeight) * Nat.pow 2 shift

/-- The word of the double nearest to a fraction, a tie going to the even word; infinity if the
fraction is out of range. -/
def nearest (numerator denominator : Nat) : Nat :=
  let scaled := numerator * unitsPerOne
  let shift := (scaled / denominator).log2 - 52
  min infinity (shift * exponentWeight + roundHalfEven scaled (denominator * Nat.pow 2 shift))

/-- The word of a double, which is the double without its sign. -/
def word (x : Float) : Nat :=
  x.toBits.toNat % signWeight

/-- Whether the sign bit of a double is set. -/
def isNegative (x : Float) : Bool :=
  signWeight ≤ x.toBits.toNat

/-- The double with a given sign and word. -/
def ofWord (negative : Bool) (word : Nat) : Float :=
  Float.ofBits (UInt64.ofNat (if negative then signWeight + word else word))

/-- The double that is no number. -/
def notANumber : Float :=
  ofWord false (infinity + exponentWeight / 2)

end Binary64

/-- The word of the double nearest to a decimal, sign aside. Powers of ten far outside the range of
doubles are decided without being computed: a positive coefficient times `10 ^ 401` is above every
double, and a coefficient below `2 ^ (k + 1)` times `10 ^ -(401 + k)` is below half the smallest. -/
def Decimal.nearestWord (d : Decimal) : Nat :=
  if d.coefficient = 0 then 0
  else if 400 < d.exponent then Binary64.infinity
  else if d.exponent < -(400 + d.coefficient.log2 : Int) then 0
  else if 0 ≤ d.exponent then Binary64.nearest (d.coefficient * Nat.pow 10 d.exponent.toNat) 1
  else Binary64.nearest d.coefficient (Nat.pow 10 (-d.exponent).toNat)

/-- The double that a numeral is rounded to. -/
def Numeral.toFloat : Numeral → Float
  | .finite w => Binary64.ofWord w.negative w.counted.nearestWord
  | .infinite negative => Binary64.ofWord negative Binary64.infinity
  | .notANumber => Binary64.notANumber

end Quadrille
