import Quadrille.Markup.Event

/-!
# Attributes

The attributes of a tag, as pairs of a name and a quoted value. Names are whatever stands before an
equals sign, and no two attributes have the same one. Blanks may surround the equals sign, and need
not follow the value. Reading is a scan from left to right that stops at the first fault; what
precedes it is still there to be read.
-/

namespace Quadrille.Markup

/-- An attribute of a tag; its value still has its entities. -/
structure Attribute where
  name : List Char
  value : List Char
  deriving DecidableEq, Repr

/-- What the scan of attributes is in the middle of. What is collected is kept in reverse. -/
inductive AttributeMode where
  | between
  | name (collected : List Char)
  | beforeEquals (name : List Char)
  | beforeValue (name : List Char)
  | value (name : List Char) (quote : Char) (collected : List Char)
  | failed
  deriving DecidableEq, Repr

/-- The state of the scan of attributes. -/
structure AttributeScanner where
  /-- The attributes so far, the latest first. -/
  attributes : List Attribute := []
  mode : AttributeMode := .between
  deriving DecidableEq, Repr

namespace AttributeScanner

/-- Goes on in another mode. -/
def goto (s : AttributeScanner) (mode : AttributeMode) : AttributeScanner :=
  { s with mode }

/-- Goes on to the value of an attribute, unless there is one of that name already. -/
def expectValue (s : AttributeScanner) (name : List Char) : AttributeScanner :=
  if s.attributes.any fun a => a.name == name then s.goto .failed else s.goto (.beforeValue name)

/-- Reads one character. -/
def step (s : AttributeScanner) (c : Char) : AttributeScanner :=
  match s.mode with
  | .between => if isSpace c then s else s.goto (.name [c])
  | .name collected =>
    if c = '=' then s.expectValue collected.reverse
    else if isSpace c then s.goto (.beforeEquals collected.reverse)
    else s.goto (.name (c :: collected))
  | .beforeEquals name =>
    if c = '=' then s.expectValue name
    else if isSpace c then s
    else s.goto .failed
  | .beforeValue name =>
    if isSpace c then s
    else if c = '"' ∨ c = '\'' then s.goto (.value name c [])
    else s.goto .failed
  | .value name quote collected =>
    if c = quote then
      { attributes := ⟨name, collected.reverse⟩ :: s.attributes, mode := .between }
    else
      s.goto (.value name quote (c :: collected))
  | .failed => s

/-- Reads some characters. -/
def run (s : AttributeScanner) (cs : List Char) : AttributeScanner :=
  cs.foldl step s

theorem run_append (s : AttributeScanner) (cs ds : List Char) :
    s.run (cs ++ ds) = (s.run cs).run ds :=
  List.foldl_append

end AttributeScanner

/-- The attributes of a tag in order, and whether nothing is wrong with them up to the end. -/
def Tag.readAttributes (tag : Tag) : List Attribute × Bool :=
  let s := ({} : AttributeScanner).run tag.attributes
  (s.attributes.reverse, s.mode == .between)

end Quadrille.Markup
