import Quadrille.Column
import Quadrille.Number.Digit

/-!
# Cell addresses

A cell is addressed by its row and column, both counted from zero, and named by its column letters
and its row counted from one: `B3` is row 2, column 1. Names are read in either letter case and with
leading zeros in the row; `Address.name` writes the upper-case form without them.
-/

namespace Quadrille

/-- The place of a cell, without regard to the size of any grid. -/
structure Address where
  row : Nat
  column : Nat
  deriving DecidableEq, Repr, Inhabited

/-- Why a text is no cell name. -/
inductive AddressError where
  | malformed (name : String)
  deriving DecidableEq, Repr

/-- The wording of a complaint about a cell name. -/
def AddressError.message : AddressError → String
  | .malformed name => s!"Invalid cell reference: {name}"

namespace Address

/-- The characters of a cell name. -/
def nameChars (a : Address) : List Char :=
  Column.letters (a.column + 1) ++
    Digits.toChars (Digits.ofNat (Digits.count (a.row + 1)) (a.row + 1))

/-- The name of a cell. -/
def name (a : Address) : String :=
  String.ofList a.nameChars

/-- Reads a cell name: letters and then digits, and nothing else. Both numbers have to be positive
and fit a 64-bit word. -/
def ofChars? (cs : List Char) : Option Address :=
  match Digits.leading (cs.dropWhile Column.isLetter) with
  | ([], _) => none
  | (_, _ :: _) => none
  | (digits, []) =>
    let row := Digits.value digits
    match Column.ofName? cs with
    | none => none
    | some column =>
      if 1 ≤ row ∧ row ≤ Count.largest then some ⟨row - 1, column - 1⟩ else none

/-- The address that a cell name stands for. -/
def ofName? (name : String) : Option Address :=
  ofChars? name.toList

/-- The address that a cell name stands for, or the complaint about it. -/
def ofName (name : String) : Except AddressError Address :=
  match ofName? name with
  | some a => .ok a
  | none => .error (.malformed name)

end Address

end Quadrille
