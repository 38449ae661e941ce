import Quadrille.Archive.Read
import Quadrille.Document.Basic
import Quadrille.Files.Store

/-!
# Saving and loading documents

A document is stored as the list of its cells that have text or color. Loading replaces everything
on the sheet by what is stored, one cell after another, and empties the history; nothing happens at
all unless every stored cell has its place in the grid.

The file of a document is the one that it was loaded from or that it was last told to be saved to,
whether or not saving went well.
-/

namespace Quadrille

/-- Why a document cannot be loaded or saved. -/
inductive DocumentError where
  | file (e : FileError)
  | archive (e : ArchiveError)
  /-- A stored cell has no place in the grid. -/
  | invalidCellName (name : String)
  /-- The document does not belong to a file. -/
  | noPath
  deriving DecidableEq, Repr

namespace DocumentError

/-- The wording of a complaint about a document. -/
def message : DocumentError → String
  | .file e => "IO error: " ++ e.message
  | .archive e => e.message
  | .invalidCellName name => "Invalid cell name: " ++ name
  | .noPath => "No file path set"

/-- The wording of what is behind a complaint, if something else is. -/
def cause? : DocumentError → Option String
  | .file e => some e.message
  | .archive (.markup e) => some e.message
  | _ => none

/-- The complaint with what is behind it. -/
def fullMessage (e : DocumentError) : String :=
  match e.cause? with
  | some cause => e.message ++ ": " ++ cause
  | none => e.message

end DocumentError

variable {shape : Shape}

namespace Document

/-- The document as it is stored. -/
def archived (d : Document shape) : String :=
  Archive.write d.sheet.entries

/-- The place of a stored cell, and the cell. -/
def placeOfStored (shape : Shape) (stored : StoredCell) :
    Except DocumentError (shape.Place × StoredCell) :=
  match shape.named? stored.name with
  | some p => .ok (p, stored)
  | none => .error (.invalidCellName stored.name)

/-- Replaces the contents of a document by stored cells. A later cell of the same place replaces an
earlier one. -/
def load (d : Document shape) (stored : List StoredCell) :
    Except DocumentError (Outcome shape) := do
  let placed ← stored.mapM (placeOfStored shape)
  let s := placed.foldl (fun s (p, c) => s.restore p { text := c.text, color := c.color })
    d.session.clear
  let s := s.remark (.loaded placed.length)
  return {
    document := { d with sheet := s.sheet, history := d.history.clear, modified := false }
    journal := s.journal }

/-- Replaces the contents of a document by those of a stored document. -/
def loadText (d : Document shape) (text : String) : Except DocumentError (Outcome shape) := do
  let stored ← (Archive.read text).mapError .archive
  d.load stored

/-- The document after it has been loaded from a file with the given contents. -/
def loadFrom (d : Document shape) (path : String) (contents : Except FileError String) :
    Except DocumentError (Outcome shape) := do
  let text ← contents.mapError .file
  let outcome ← d.loadText text
  return { outcome with document := { outcome.document with path := some path } }

/-- Marks a document as saved. -/
def saved (d : Document shape) : Document shape :=
  { d with modified := false }

variable {m : Type → Type} [Monad m] [FileStore m]

/-- Loads a document from a file. -/
def loadFile (d : Document shape) (path : String) :
    m (Except DocumentError (Outcome shape)) := do
  return d.loadFrom path (← FileStore.readText path)

/-- Saves a document to its file. The result says which file that is. -/
def saveFile (d : Document shape) : m (Document shape × Except DocumentError String) := do
  match d.path with
  | none => return (d, .error .noPath)
  | some path =>
    match ← FileStore.writeText path d.archived with
    | .error e => return (d, .error (.file e))
    | .ok () => return (d.saved, .ok path)

/-- Makes a file the one that a document belongs to, and saves the document to it. -/
def saveAs (d : Document shape) (path : String) :
    m (Document shape × Except DocumentError String) :=
  { d with path := some path }.saveFile

end Document

end Quadrille
