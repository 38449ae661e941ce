import Quadrille.Document.History
import Quadrille.Sheet.Recalculation

/-!
# Documents

A document is a sheet with its history, the file that it belongs to, and a mark for unsaved work.
This module holds editing, undoing and redoing. An operation either fails and leaves no trace, or
gives the new document together with the journal of what happened.
-/

namespace Quadrille

/-- The sizes that a new document is made with. -/
structure Settings where
  rows : Nat := 50
  columns : Nat := 26
  /-- How many steps can be undone. -/
  historyLimit : Nat := 100
  deriving DecidableEq, Repr

/-- The grid of a document made with these settings. -/
def Settings.shape (s : Settings) : Shape :=
  Shape.clamped s.rows s.columns

/-- A spreadsheet document. -/
structure Document (shape : Shape) where
  sheet : Sheet shape
  history : History shape
  /-- The file that the document is saved to. -/
  path : Option String := none
  /-- Whether there may be work that has not been saved. -/
  modified : Bool := false
  deriving DecidableEq

variable {shape : Shape}

/-- A document after an operation, and what happened during it. -/
structure Outcome (shape : Shape) where
  document : Document shape
  journal : Journal shape := {}
  deriving DecidableEq

/-- A cell address lies outside the grid. -/
structure OutOfRange where
  address : Address
  deriving DecidableEq, Repr

/-- The wording of a complaint about an address outside the grid. -/
def OutOfRange.message (e : OutOfRange) : String :=
  s!"Cell at row {e.address.row}, column {e.address.column} is outside the grid"

/-- The place of an address that has to lie in the grid. -/
def Shape.place (shape : Shape) (a : Address) : Except OutOfRange shape.Place :=
  match shape.place? a with
  | some p => .ok p
  | none => .error ⟨a⟩

namespace Document

/-- An empty document that keeps at most `limit` steps. -/
def blank (shape : Shape) (limit : Nat) : Document shape where
  sheet := Sheet.blank
  history := { limit }

/-- The contents of the cell at an address, if it lies in the grid. -/
def cellAt? (d : Document shape) (a : Address) : Option Cell :=
  (shape.place? a).map d.sheet.cell

/-- The contents of the cell of a given name, if there is one. -/
def cellNamed? (d : Document shape) (name : String) : Option Cell :=
  (shape.named? name).map d.sheet.cell

/-- A session on the sheet of a document. -/
def session (d : Document shape) : Session shape :=
  { sheet := d.sheet }

/-- Records a new step and carries it out. -/
def perform (d : Document shape) (step : Step shape) (act : Session shape → Session shape) :
    Outcome shape :=
  let s := act ((d.history.dropRemarks step).foldl Session.remark d.session)
  { document :=
      { d with sheet := s.sheet, history := d.history.record step, modified := true }
    journal := s.journal }

/-- Sets the text of a cell. Setting the text that it has already is no step. -/
def setText (d : Document shape) (a : Address) (text : String) :
    Except OutOfRange (Outcome shape) := do
  let p ← shape.place a
  if (d.sheet.cell p).text = text then
    return { document := d }
  else
    return d.perform ⟨.textChange, [(p, d.sheet.cell p)]⟩ fun s => s.setText p text

/-- Sets the color of some cells in one step, which touches each cell of another color once. If all
have the color already there is no step. -/
def setColors (d : Document shape) (as : List Address) (color : Color) :
    Except OutOfRange (Outcome shape) := do
  let ps ← as.mapM shape.place
  let touched := ps.eraseDups.filter fun p => (d.sheet.cell p).color != color
  if touched.isEmpty then
    return { document := d }
  else
    return d.perform ⟨.colorChange, touched.map fun p => (p, d.sheet.cell p)⟩ fun s =>
      touched.foldl (fun s p => s.setColor p color) s

/-- Sets the color of one cell. -/
def setColor (d : Document shape) (a : Address) (color : Color) :
    Except OutOfRange (Outcome shape) :=
  d.setColors [a] color

/-- The step that reverts a step: the same cells as they are now. -/
def inverse (d : Document shape) (step : Step shape) : Step shape :=
  { step with cells := step.cells.map fun (p, _) => (p, d.sheet.cell p) }

/-- Puts the cells of a step back. -/
def revert (s : Session shape) (step : Step shape) : Session shape :=
  step.cells.foldl (fun s (p, c) => s.restore p c) s

/-- Undoes the latest step, if there is one. -/
def undo? (d : Document shape) : Option (Outcome shape) :=
  match d.history.undo with
  | [] => none
  | step :: rest =>
    let s := revert (d.session.remark (.undoing step.kind)) step
    some
      { document :=
          { d with
            sheet := s.sheet
            history := { d.history with undo := rest, redo := d.inverse step :: d.history.redo }
            modified := true }
        journal := s.journal }

/-- Redoes the step that was undone last, if there is one. -/
def redo? (d : Document shape) : Option (Outcome shape) :=
  match d.history.redo with
  | [] => none
  | step :: rest =>
    let inverse := d.inverse step
    let s := revert (d.session.remark (.redoing step.kind)) step
    let s := (d.history.dropRemarks inverse).foldl Session.remark s
    some
      { document :=
          { d with
            sheet := s.sheet
            history := { d.history.pushUndo inverse with redo := rest }
            modified := true }
        journal := s.journal }

/-- Forgets all steps. -/
def clearHistory (d : Document shape) : Document shape :=
  { d with history := d.history.clear }

/-- What undoing would revert. -/
def undoDescription? (d : Document shape) : Option String :=
  d.history.undo.head?.map fun step => step.kind.description

/-- What redoing would do again. -/
def redoDescription? (d : Document shape) : Option String :=
  d.history.redo.head?.map fun step => step.kind.description

/-- A one-line description of the state of a document. -/
def summary (d : Document shape) : String :=
  let path :=
    match d.path with
    | none => "None"
    | some path => "Some(" ++ Text.quoted path ++ ")"
  let fields := [
    s!"rows: {shape.rows}", s!"columns: {shape.columns}",
    s!"undo: {d.history.undo.length}", s!"redo: {d.history.redo.length}",
    s!"file_path: {path}", s!"modified: {d.modified}"]
  "Spreadsheet \x7b " ++ String.intercalate ", " fields ++ " \x7d"

/-- The cells that have text, with what they show, in reading order. -/
def listing (d : Document shape) : List String :=
  (d.sheet.entries.filter fun (_, c) => !c.text.isEmpty).map fun (a, c) => s!"{a.name}: {c.shown}"

end Document

end Quadrille
