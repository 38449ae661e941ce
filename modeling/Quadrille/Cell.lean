import Quadrille.Number.Count
import Quadrille.Text.Blank

/-!
# Cells

A cell keeps the text that was typed into it, the value computed from the text, a complaint if there
is none, and a background color. Cells compute nothing by themselves. Every write to a cell is an
`Edit`, which names the property that it sets, so that a change can be told from a write that leaves
everything as it was.
-/

namespace Quadrille

/-- A packed color: alpha, red, green and blue, one byte each. -/
abbrev Color := UInt32

/-- The color that stands for no color. -/
def noColor : Color := 0xFFFFFFFF

/-- The contents of a cell. -/
structure Cell where
  text : String := ""
  /-- What the text computes to, as displayed. -/
  value : String := ""
  /-- The complaint shown in place of the value. -/
  error : Option String := none
  color : Color := noColor
  deriving DecidableEq, Repr, Inhabited

/-- A property of a cell that can be observed to change. -/
inductive Property where
  | text
  | value
  | backgroundColor
  | error
  deriving DecidableEq, Repr

/-- A write to one property of a cell. -/
inductive Edit where
  | text (s : String)
  | value (s : String)
  | error (message : Option String)
  | color (c : Color)
  deriving DecidableEq, Repr

/-- The property that a write sets. -/
def Edit.property : Edit → Property
  | .text _ => .text
  | .value _ => .value
  | .error _ => .error
  | .color _ => .backgroundColor

namespace Cell

/-- A cell without text or color. -/
def blank : Cell := {}

/-- The cell after a write. -/
def edit (c : Cell) : Edit → Cell
  | .text s => { c with text := s }
  | .value s => { c with value := s }
  | .error message => { c with error := message }
  | .color color => { c with color := color }

/-- The complaint on a cell, if there is one and it is not blank. -/
def complaint (c : Cell) : Option String :=
  c.error.filter fun message => !Text.isAllBlank message

/-- What the cell shows: its complaint, or else its value. -/
def shown (c : Cell) : String :=
  c.complaint.getD c.value

/-- Whether there is a complaint on the cell. -/
def isErrored (c : Cell) : Bool :=
  c.complaint.isSome

/-- Whether a cell has neither text nor color, and need not be stored. -/
def isDefault (c : Cell) : Bool :=
  c.text.isEmpty && c.color == noColor

end Cell

/-- What the text of a cell asks for. -/
inductive Input where
  /-- To be shown as it is. -/
  | literal (text : String)
  /-- To be computed: the text behind the equals sign. -/
  | formula (body : String)
  deriving DecidableEq, Repr

namespace Input

/-- A text is a formula if it begins with an equals sign and goes on. -/
def ofText (s : String) : Input :=
  match s.toList with
  | '=' :: c :: cs => .formula (String.ofList (c :: cs))
  | _ => .literal s

end Input

end Quadrille
