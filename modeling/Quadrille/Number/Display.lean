import Quadrille.Number.Binary64
import Quadrille.Text.Blank

/-!
# Displaying numbers

The text of a computed number, and the number that a text stands for when a formula reads it. A
number is displayed with fifteen significant digits if these determine it, and otherwise with
seventeen, which always do. So `Number.read` gives back what `Number.display` was given, and a
formula that refers to the cell of another formula computes with the exact value there.

Rounding to digits (`Scientific.ofWord`) and arranging digits in a text (`Scientific.layout`) are
separate: the second is exact and works for any digits and exponent.
-/

namespace Quadrille

/-- The number `d₁.d₂d₃… * 10 ^ exponent`. -/
structure Scientific where
  digits : List Digit
  exponent : Int
  deriving DecidableEq, Repr

namespace Scientific

/-- The exponent of the leading decimal digit of a positive number of smallest units. -/
def leadingExponent (units : Nat) : Int :=
  if Binary64.unitsPerOne ≤ units then
    (Digits.count (units / Binary64.unitsPerOne) : Int) - 1
  else
    -(Digits.count ((Binary64.unitsPerOne - 1) / units) : Int)

/-- A number of smallest units times a power of ten, rounded to a whole number. -/
def scaleUnits (units : Nat) (power : Int) : Nat :=
  if 0 ≤ power then
    roundHalfEven (units * Nat.pow 10 power.toNat) Binary64.unitsPerOne
  else
    roundHalfEven units (Binary64.unitsPerOne * Nat.pow 10 (-power).toNat)

/-- The positive finite double with this word, rounded to `precision` significant digits. Nines that
round up to the next power of ten move the exponent. -/
def ofWord (precision word : Nat) : Scientific :=
  let units := Binary64.units word
  let exponent := leadingExponent units
  let coefficient := scaleUnits units (precision - 1 - exponent)
  if coefficient < Nat.pow 10 precision then ⟨Digits.ofNat precision coefficient, exponent⟩
  else ⟨Digits.ofNat precision (Nat.pow 10 (precision - 1)), exponent + 1⟩

/-- The same number as a decimal. -/
def toDecimal (negative : Bool) (s : Scientific) : Decimal :=
  ⟨negative, Digits.value s.digits, s.exponent - (s.digits.length - 1)⟩

/-- Digits around a point that stands behind the digit of weight one. -/
def layoutFixed (digits : List Digit) (exponent : Int) : List Char :=
  if exponent < 0 then
    ['0', '.'] ++ List.replicate (-exponent - 1).toNat '0' ++ Digits.toChars digits
  else
    let whole := exponent.toNat + 1
    if digits.length ≤ whole then
      Digits.toChars digits ++ List.replicate (whole - digits.length) '0'
    else
      Digits.toChars (digits.take whole) ++ '.' :: Digits.toChars (digits.drop whole)

/-- A whole number in at least two digits. -/
def atLeastTwoDigits (n : Nat) : List Char :=
  Digits.toChars (Digits.ofNat (max 2 (Digits.count n)) n)

/-- Digits with the point behind the first, and the exponent written out. -/
def layoutExponent (digits : List Digit) (exponent : Int) : List Char :=
  Digits.toChars (digits.take 1) ++
    (if (digits.drop 1).isEmpty then [] else '.' :: Digits.toChars (digits.drop 1)) ++
    ['E', if exponent < 0 then '-' else '+'] ++ atLeastTwoDigits exponent.natAbs

/-- The text of a signed number with `precision` significant digits. Zeros at the end of the digits
are dropped. The exponent is written out unless the point falls among the digits or at most four
places before them. -/
def layout (precision : Nat) (negative : Bool) (s : Scientific) : List Char :=
  let digits := Digits.dropTrailingZeros s.digits
  (if negative then ['-'] else []) ++
    (if -5 < s.exponent ∧ s.exponent < precision then layoutFixed digits s.exponent
     else layoutExponent digits s.exponent)

end Scientific

namespace Number

/-- The number of significant digits that is tried first. -/
def shortPrecision : Nat := 15

/-- A number of significant digits that determines every double. -/
def fullPrecision : Nat := 17

/-- The text of a finite double other than zero. -/
def displayFinite (negative : Bool) (word : Nat) : List Char :=
  let short := Scientific.ofWord shortPrecision word
  if (short.toDecimal negative).nearestWord = word then
    short.layout shortPrecision negative
  else
    (Scientific.ofWord fullPrecision word).layout fullPrecision negative

/-- The text of a number. Both zeros are displayed alike. -/
def display (x : Float) : String :=
  let word := Binary64.word x
  let negative := Binary64.isNegative x
  if Binary64.infinity < word then "NaN"
  else if word = Binary64.infinity then (if negative then "-Infinity" else "Infinity")
  else if word = 0 then "0"
  else String.ofList (displayFinite negative word)

/-- The number that a text writes, if it writes one. -/
def ofText? (s : String) : Option Float :=
  (Numeral.read? s.toList).map Numeral.toFloat

/-- The number that a formula takes from a cell with this text: blanks around it do not matter, and
a text that is no number counts as zero. -/
def read (s : String) : Float :=
  (ofText? (Text.trimmed s)).getD (Binary64.ofWord false 0)

end Number

end Quadrille
