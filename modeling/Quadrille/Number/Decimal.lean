import Quadrille.Number.Digit

/-!
# Decimal numerals

The grammar of numbers in cells and formulas: an optional sign, digits with at most one point among
them, and an optional power of ten; or one of the words for the infinities and for what is no
number. A numeral is kept as it is written, so that reading and rounding stay apart.

Two numbers belong to a written numeral. The one that it denotes is exact (`Written.toDecimal`). The
one that is rounded (`Written.counted`) takes in the digits of the power of ten only as far as
`Digits.cap`. A power that large is far out of the range of doubles by itself, so the two round
alike unless tens of thousands of digits beside the power make up for it.
-/

namespace Quadrille

/-- The rational number `± coefficient * 10 ^ exponent`. -/
structure Decimal where
  negative : Bool
  coefficient : Nat
  exponent : Int
  deriving DecidableEq, Repr

/-- A numeral in digits, as it is written. -/
structure Written where
  /-- Whether the numeral begins with a minus sign. -/
  negative : Bool
  /-- The digits before the point. -/
  whole : List Digit
  /-- The digits behind the point. -/
  fraction : List Digit
  /-- Whether the power of ten begins with a minus sign. -/
  powerNegative : Bool
  /-- The digits of the power of ten. There are none if no power is written. -/
  power : List Digit
  deriving DecidableEq, Repr

namespace Written

/-- The number that a numeral denotes if the magnitude of its power of ten is as given. -/
def withPower (w : Written) (magnitude : Nat) : Decimal :=
  ⟨w.negative, Digits.value (w.whole ++ w.fraction),
    (if w.powerNegative then -(magnitude : Int) else magnitude) - w.fraction.length⟩

/-- The number that a numeral denotes. -/
def toDecimal (w : Written) : Decimal :=
  w.withPower (Digits.value w.power)

/-- The number that stands for a numeral when it is rounded. -/
def counted (w : Written) : Decimal :=
  w.withPower (Digits.cappedValue w.power)

/-- A numeral counts as what it denotes if its power of ten has at most five digits. -/
theorem counted_eq_toDecimal {w : Written} (h : Digits.value w.power < 10 * Digits.cap) :
    w.counted = w.toDecimal := by
  rw [counted, toDecimal, Digits.cappedValue_eq_value h]

end Written

/-- What the text of a number says before it is rounded. -/
inductive Numeral where
  | finite (w : Written)
  | infinite (negative : Bool)
  | notANumber
  deriving DecidableEq, Repr

namespace Numeral

/-- Splits an optional sign off a text; the first component says whether it is a minus sign. -/
def splitSign : List Char → Bool × List Char
  | '-' :: cs => (true, cs)
  | '+' :: cs => (false, cs)
  | cs => (false, cs)

/-- The power of ten at the end of a numeral: nothing, or the letter `e` and a whole number. The
result is whether the number has a minus sign, and its digits. -/
def readPower? : List Char → Option (Bool × List Digit)
  | [] => some (false, [])
  | c :: cs =>
    if c = 'e' ∨ c = 'E' then
      match Digits.leading (splitSign cs).2 with
      | ([], _) => none
      | (ds, []) => some ((splitSign cs).1, ds)
      | (_, _ :: _) => none
    else
      none

/-- The digits before and after the point, and what follows them. -/
def splitPoint (cs : List Char) : List Digit × List Digit × List Char :=
  match Digits.leading cs with
  | (whole, '.' :: rest) => (whole, Digits.leading rest)
  | (whole, rest) => (whole, [], rest)

/-- Reads a numeral in digits, without a sign. There has to be a digit on one side of the point. -/
def readDigits? (negative : Bool) (cs : List Char) : Option Written :=
  match splitPoint cs with
  | ([], [], _) => none
  | (whole, fraction, rest) =>
    (readPower? rest).map fun (powerNegative, power) =>
      ⟨negative, whole, fraction, powerNegative, power⟩

/-- Reads one of the words for the infinities and for what is no number, in any letter case. -/
def readWord? (negative : Bool) (cs : List Char) : Option Numeral :=
  let word := cs.map Char.toLower
  if word = ['i', 'n', 'f'] ∨ word = ['i', 'n', 'f', 'i', 'n', 'i', 't', 'y'] then
    some (.infinite negative)
  else if word = ['n', 'a', 'n'] then some .notANumber
  else none

/-- Reads a numeral that fills the whole text. -/
def read? (cs : List Char) : Option Numeral :=
  let (negative, rest) := splitSign cs
  match readDigits? negative rest with
  | some w => some (.finite w)
  | none => readWord? negative rest

end Numeral

end Quadrille
