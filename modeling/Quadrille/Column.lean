import Quadrille.Number.Count

/-!
# Column letters

Columns are numbered from one and named in bijective base twenty-six: `A` to `Z`, then `AA`. There
is no letter for zero, so every non-empty run of letters is the name of exactly one column.
-/

namespace Quadrille.Column

/-- Whether a character is an ASCII letter, which are the only ones that name columns. -/
def isLetter (c : Char) : Bool :=
  c.isAlpha

/-- The number of a letter, from one to twenty-six in either letter case. -/
def letterNumber (c : Char) : Nat :=
  c.toUpper.toNat - 'A'.toNat + 1

/-- The column number that a run of letters writes; no letters write zero. -/
def number (letters : List Char) : Nat :=
  letters.foldl (fun n c => n * 26 + letterNumber c) 0

/-- The letters of a column number; zero has none. -/
def letters (n : Nat) : List Char :=
  if n = 0 then []
  else letters ((n - 1) / 26) ++ [Char.ofNat ('A'.toNat + (n - 1) % 26)]

/-- Reads letters onto the column number read so far, as long as it fits a 64-bit word. -/
def readLetters? : (soFar : Nat) → List Char → Option Nat
  | soFar, [] => some soFar
  | soFar, c :: cs =>
    if soFar * 26 + letterNumber c ≤ Count.largest then
      readLetters? (soFar * 26 + letterNumber c) cs
    else none

/-- The column number that the letters at the front of a cell name write, if there are letters and
the number fits a 64-bit word. What follows the letters does not matter. -/
def ofName? (name : List Char) : Option Nat :=
  let run := name.takeWhile isLetter
  if run.isEmpty then none else readLetters? 0 run

end Quadrille.Column
