import Quadrille.Cell
import Quadrille.Formula.Tree
import Quadrille.Sheet.Links
import Quadrille.Sheet.Shape

/-!
# Sheets

The cells of a grid, the links between them, and the formulas that have been read so far. A formula
is read once and then remembered until the text of its cell changes.
-/

namespace Quadrille

/-- A sheet of a given shape. -/
structure Sheet (shape : Shape) where
  cells : Table Cell shape.size
  links : Links shape.size
  /-- The formulas that have been read from the texts of their cells. -/
  formulas : Table (Option Formula) shape.size
  deriving DecidableEq

namespace Sheet

variable {shape : Shape}

/-- The sheet with nothing on it. -/
def blank : Sheet shape where
  cells := Table.fill Cell.blank
  links := Links.none
  formulas := Table.fill none

/-- The contents of the cell at a place. -/
def cell (s : Sheet shape) (p : shape.Place) : Cell :=
  s.cells.get p

/-- The places of a grid in reading order. -/
def places (shape : Shape) : List shape.Place :=
  List.finRange shape.size

/-- The cells of a sheet with their addresses, in reading order. -/
def entries (s : Sheet shape) : List (Address × Cell) :=
  (places shape).map fun p => (shape.address p, s.cell p)

/-- The formula of a cell, as remembered or else read from its text. -/
def formula (s : Sheet shape) (p : shape.Place) (body : String) : Except FormulaError Formula :=
  match s.formulas.get p with
  | some f => .ok f
  | none => Formula.ofText body

/-- Remembers the formula of a cell. -/
def remember (s : Sheet shape) (p : shape.Place) (f : Formula) : Sheet shape :=
  { s with formulas := s.formulas.put p (some f) }

/-- Forgets the formula of a cell. -/
def forget (s : Sheet shape) (p : shape.Place) : Sheet shape :=
  { s with formulas := s.formulas.put p none }

/-- The number that a formula takes for a name: the one shown by the cell of that name, and zero if
there is no such cell. -/
def numberNamed (s : Sheet shape) (name : String) : Float :=
  match shape.named? name with
  | some p => Number.read (s.cell p).shown
  | none => Binary64.ofWord false 0

end Sheet

/-- The places of some cells given by name, in increasing order; or the first of the names that is
not the name of a cell in the grid. -/
def Shape.targets (shape : Shape) (names : List String) : Except String (List shape.Place) := do
  let ps ← names.mapM fun name =>
    match shape.named? name with
    | some p => .ok p
    | none => .error name
  return Links.increasing ps

/-- What the text of a cell comes to in a grid of a given shape. -/
inductive Outlook (shape : Shape) where
  /-- Shown as it is. -/
  | literal (text : String)
  /-- A formula that cannot be understood. -/
  | unparsable (body : String) (e : FormulaError)
  /-- A formula with nothing to compute, shown as it is. -/
  | blank (text : String)
  /-- A formula that names something other than a cell of the grid. -/
  | invalidReference (tree : Tree) (name : String)
  /-- A formula that can be computed once the cells at `targets` are up to date. -/
  | computed (tree : Tree) (targets : List shape.Place)
  deriving DecidableEq

namespace Outlook

variable {shape : Shape}

/-- The outlook of a text, given a way to read formulas. -/
def ofInput (shape : Shape) (read : String → Except FormulaError Formula) (text : String) :
    Outlook shape :=
  match Input.ofText text with
  | .literal shown => .literal shown
  | .formula body =>
    match read body with
    | .error e => .unparsable body e
    | .ok .blank => .blank text
    | .ok (.expression tree) =>
      match shape.targets tree.variableNames with
      | .error name => .invalidReference tree name
      | .ok targets => .computed tree targets

/-- The outlook of a text by itself. -/
def ofText (shape : Shape) (text : String) : Outlook shape :=
  ofInput shape Formula.ofText text

end Outlook

namespace Sheet

variable {shape : Shape}

/-- The outlook of a cell, with its formula as remembered or else read from its text. -/
def outlook (s : Sheet shape) (p : shape.Place) : Outlook shape :=
  Outlook.ofInput shape (s.formula p) (s.cell p).text

end Sheet

end Quadrille
