import Quadrille.Archive.Write
import Quadrille.Markup.Attribute

/-!
# Reading stored documents

A stored document is read event by event. Only the elements of cells and, inside them, those of text
and color have a meaning; everything else is passed over, wherever it stands. The prefix of a name
up to its first colon does not matter.

Names of cells are not checked here, because a document is read without regard to a grid. A color
that is no number counts as no color.
-/

namespace Quadrille

/-- A cell as it is stored. -/
structure StoredCell where
  name : String
  text : String := ""
  color : Color := noColor
  deriving DecidableEq, Repr

/-- Why a text is no stored document. -/
inductive ArchiveError where
  /-- The markup is not well formed. -/
  | markup (e : MarkupError)
  /-- The attributes of a cell are not well formed. -/
  | attributes
  /-- There is no element at all. -/
  | missingRoot
  /-- The first element is not that of a document. -/
  | wrongRoot (found : List Char)
  /-- The element of a cell does not say which cell. -/
  | missingName
  deriving DecidableEq, Repr

/-- The wording of a complaint about a stored document. -/
def ArchiveError.message : ArchiveError → String
  | .markup e => "XML error: " ++ e.message
  | .attributes => "XML attribute error: malformed attribute"
  | .missingRoot => "Invalid spreadsheet document: Missing <Spreadsheet> root element"
  | .wrongRoot found =>
    "Invalid spreadsheet document: Expected <Spreadsheet> root element, found <" ++
      String.ofList found ++ ">"
  | .missingName => "Invalid spreadsheet document: <SpreadsheetCell> without IndexName attribute"

namespace Archive

/-- The parts of a cell that character data can belong to. -/
inductive Field where
  | text
  | color
  deriving DecidableEq, Repr

/-- The state of reading a document. -/
structure Reader where
  /-- Whether the outermost element has begun. -/
  begun : Bool := false
  /-- The cell whose element is open. -/
  current : Option StoredCell := none
  /-- The part of a cell whose element is open. -/
  field : Option Field := none
  /-- The color read so far. -/
  color : String := ""
  /-- The cells so far, the latest first. -/
  done : List StoredCell := []
  deriving DecidableEq, Repr

/-- The color that a text stands for. -/
def colorOfText (s : String) : Color :=
  match Count.ofText? Count.largestColor (Text.trim s.toList) with
  | some n => UInt32.ofNat n
  | none => noColor

/-- A text without its entities. -/
def plainText (raw : List Char) : Except ArchiveError String :=
  match Markup.unescape? raw with
  | some cs => .ok (String.ofList cs)
  | none => .error (.markup .invalidEntity)

/-- The name of a cell, from the attributes of its element; the last one counts. -/
def nameAmong (attributes : List Markup.Attribute) : Except ArchiveError (Option String) :=
  attributes.foldlM
    (fun found a =>
      if Markup.localName a.name = indexName then some <$> plainText a.value else .ok found)
    none

/-- The cell that an element begins. -/
def cellOfTag (tag : Markup.Tag) : Except ArchiveError StoredCell := do
  let (attributes, wellFormed) := tag.readAttributes
  let found ← nameAmong attributes
  if !wellFormed then throw .attributes
  match found with
  | some name => return { name }
  | none => throw .missingName

namespace Reader

/-- Checks the first element. -/
def begin (r : Reader) (tag : Markup.Tag) : Except ArchiveError Reader :=
  if r.begun then .ok r
  else if Markup.localName tag.name = rootName then .ok { r with begun := true }
  else .error (.wrongRoot (Markup.localName tag.name))

/-- An element begins. -/
def start (r : Reader) (tag : Markup.Tag) : Except ArchiveError Reader := do
  let r ← r.begin tag
  let name := Markup.localName tag.name
  if name = cellName then return { r with current := some (← cellOfTag tag) }
  else if name = textName ∧ r.current.isSome then return { r with field := some .text }
  else if name = colorName ∧ r.current.isSome then
    return { r with field := some .color, color := "" }
  else return r

/-- An element without contents. -/
def empty (r : Reader) (tag : Markup.Tag) : Except ArchiveError Reader := do
  let r ← r.begin tag
  if Markup.localName tag.name = cellName then
    return { r with done := (← cellOfTag tag) :: r.done }
  else return r

/-- An element ends. -/
def finish (r : Reader) (name : List Char) : Reader :=
  let name := Markup.localName name
  if name = cellName then
    match r.current with
    | some cell => { r with current := none, done := cell :: r.done }
    | none => r
  else if name = colorName then
    { r with
      current := r.current.map fun cell => { cell with color := colorOfText r.color }
      field := none }
  else if name = textName then { r with field := none }
  else r

/-- Character data is added to the part of the cell that is open, if there is one. -/
def add (r : Reader) (s : String) : Reader :=
  match r.current, r.field with
  | some cell, some .text => { r with current := some { cell with text := cell.text ++ s } }
  | some _, some .color => { r with color := r.color ++ s }
  | _, _ => r

/-- Reads character data. Its entities matter only if it is used. -/
def text (r : Reader) (raw : List Char) : Except ArchiveError Reader :=
  if r.current.isSome ∧ r.field.isSome then r.add <$> plainText raw else .ok r

/-- Reads a section of character data, which can only be part of a text. -/
def rawText (r : Reader) (raw : List Char) : Reader :=
  if r.field = some .text then r.add (String.ofList raw) else r

/-- Reads one event. -/
def step (r : Reader) : Markup.Event → Except ArchiveError Reader
  | .start tag => r.start tag
  | .empty tag => r.empty tag
  | .finish name => .ok (r.finish name)
  | .text raw => r.text raw
  | .section raw => .ok (r.rawText raw)
  | .aside => .ok r

end Reader

/-- The cells of a document in the order in which they are stored. Of several faults the first
counts. -/
def readChars (cs : List Char) : Except ArchiveError (List StoredCell) := do
  let (events, fault) := Markup.scan cs
  let r ← events.foldlM Reader.step {}
  match fault with
  | some e => throw (.markup e)
  | none => if r.begun then return r.done.reverse else throw .missingRoot

/-- The cells of a document. -/
def read (s : String) : Except ArchiveError (List StoredCell) :=
  readChars s.toList

end Archive

end Quadrille
