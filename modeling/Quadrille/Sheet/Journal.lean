import Quadrille.Sheet.Basic
import Quadrille.Text.Quoted

/-!
# Journals and sessions

What happens during an operation on a sheet is written into a journal: the changes that observers
are told about, and remarks on how the work went. A `Session` is a sheet together with the journal
of the operation in progress. Every write to a cell goes through `Session.write`, which records a
change exactly when there is one.
-/

namespace Quadrille

/-- The kinds of steps that can be undone. -/
inductive StepKind where
  | textChange
  | colorChange
  deriving DecidableEq, Repr

/-- What a step is called. -/
def StepKind.description : StepKind → String
  | .textChange => "cell text change"
  | .colorChange => "cell background color change"

variable {shape : Shape}

/-- A property of a cell has changed. -/
structure Change (shape : Shape) where
  place : shape.Place
  property : Property
  deriving DecidableEq

/-- How much a remark matters. -/
inductive Level where
  | trace
  | debug
  | warn
  deriving DecidableEq, Repr

/-- A remark on the course of an operation. -/
inductive Remark (shape : Shape) where
  /-- A cell is being brought up to date. -/
  | recalculating (p : shape.Place)
  /-- The text of a cell is no formula. -/
  | unparsable (p : shape.Place) (body : String) (e : FormulaError)
  /-- A formula names something that is not a cell of the grid. -/
  | invalidReference (p : shape.Place) (name : String)
  /-- Cells were found to lie on a loop of references, or to lead into one. -/
  | loop (members : List shape.Place)
  /-- Bringing a cell up to date ended in a loop. -/
  | inLoop (p : shape.Place)
  | undoing (kind : StepKind)
  | redoing (kind : StepKind)
  /-- The oldest step was dropped to keep the history within its limit. -/
  | historyFull (limit : Nat) (kind : StepKind)
  /-- A document with this many stored cells has replaced the contents. -/
  | loaded (count : Nat)
  deriving DecidableEq

namespace Remark

/-- The importance of a remark. -/
def level : Remark shape → Level
  | .recalculating _ => .trace
  | .historyFull .. => .warn
  | _ => .debug

/-- The wording of a remark. -/
def message : Remark shape → String
  | .recalculating p => s!"recalculating {shape.nameOf p}"
  | .unparsable p body e =>
    s!"{shape.nameOf p}: cannot parse formula {Text.quoted body}: {e.message}"
  | .invalidReference p name => s!"{shape.nameOf p}: invalid reference {Text.quoted name}"
  | .loop members =>
    "circular reference through " ++ String.intercalate ", " (members.map shape.nameOf)
  | .inLoop p => s!"{shape.nameOf p} is part of a circular reference"
  | .undoing kind => s!"undo {kind.description}"
  | .redoing kind => s!"redo {kind.description}"
  | .historyFull limit kind =>
    s!"history limit {limit} reached, dropping oldest entry ({kind.description})"
  | .loaded count => s!"loaded {count} cells"

end Remark

/-- What happened during an operation, in order. -/
structure Journal (shape : Shape) where
  changes : Array (Change shape) := #[]
  remarks : Array (Remark shape) := #[]
  deriving DecidableEq

/-- A sheet and the journal of the operation in progress. -/
structure Session (shape : Shape) where
  sheet : Sheet shape
  journal : Journal shape := {}
  deriving DecidableEq

namespace Session

/-- The contents of the cell at a place. -/
def cell (s : Session shape) (p : shape.Place) : Cell :=
  s.sheet.cell p

/-- Adds a remark. -/
def remark (s : Session shape) (r : Remark shape) : Session shape :=
  { s with journal := { s.journal with remarks := s.journal.remarks.push r } }

/-- Tells observers about a property of a cell. -/
def announce (s : Session shape) (p : shape.Place) (property : Property) : Session shape :=
  { s with journal := { s.journal with changes := s.journal.changes.push ⟨p, property⟩ } }

/-- Writes to a cell, and tells observers if that changes anything. -/
def write (s : Session shape) (p : shape.Place) (e : Edit) : Session shape :=
  let new := (s.cell p).edit e
  if new = s.cell p then s
  else { s with sheet := { s.sheet with cells := s.sheet.cells.put p new } }.announce p e.property

/-- Replaces the links from a cell. -/
def link (s : Session shape) (p : shape.Place) (targets : List shape.Place) : Session shape :=
  { s with sheet := { s.sheet with links := s.sheet.links.link p targets } }

/-- Removes the links from a cell. -/
def unlink (s : Session shape) (p : shape.Place) : Session shape :=
  { s with sheet := { s.sheet with links := s.sheet.links.unlink p } }

/-- Remembers the formula of a cell. -/
def remember (s : Session shape) (p : shape.Place) (f : Formula) : Session shape :=
  { s with sheet := s.sheet.remember p f }

/-- Forgets the formula of a cell. -/
def forget (s : Session shape) (p : shape.Place) : Session shape :=
  { s with sheet := s.sheet.forget p }

/-- Writes the outcome of a computation to a cell. -/
def writeResult (s : Session shape) (p : shape.Place) (value : String) (error : Option String) :
    Session shape :=
  (s.write p (.value value)).write p (.error error)

end Session

end Quadrille
