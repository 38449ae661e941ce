import Quadrille.Markup.Error

/-!
# Markup events

A text in markup is a sequence of tags and of the character data between them. `Markup.scan` finds
them, from left to right and one character at a time, and stops at the first thing that is not well
formed. What comes before a fault is still there to be read, so that a reader can complain about
what it met first.

End tags are matched with the elements that are open, by their full names. Elements may still be
open at the end of the text, and there may be several elements at the top. Entities are left alone,
and so are attributes: both are looked at only where they are used.

## Implementation notes

The scan is a machine with a state, and `Scanner.run_append` follows it through a concatenation.
Everything that grows is kept in reverse, with the latest first.
-/

namespace Quadrille.Markup

/-- The blanks that separate the parts of a tag. -/
def isSpace (c : Char) : Bool :=
  c == ' ' || c == '\t' || c == '\n' || c == '\r'

/-- The start of an element: its name, and its attributes as they are written. -/
structure Tag where
  name : List Char
  attributes : List Char
  deriving DecidableEq, Repr

/-- The tag with the given characters between its angle brackets. -/
def Tag.ofBody (body : List Char) : Tag :=
  ⟨body.takeWhile fun c => !isSpace c, body.dropWhile fun c => !isSpace c⟩

/-- What follows the first colon of a name, or all of it. -/
def localName (name : List Char) : List Char :=
  match name.dropWhile (· != ':') with
  | [] => name
  | _ :: rest => rest

/-- A part of a text in markup. -/
inductive Event where
  /-- An element begins. -/
  | start (tag : Tag)
  /-- An element without contents. -/
  | empty (tag : Tag)
  /-- An element ends. -/
  | finish (name : List Char)
  /-- Character data, with its entities. -/
  | text (raw : List Char)
  /-- A section of character data without entities. -/
  | section (raw : List Char)
  /-- A comment, an instruction or a declaration. -/
  | aside
  deriving DecidableEq, Repr

/-- What the scan is in the middle of. -/
inductive Mode where
  | text (run : List Char)
  /-- Just behind `<`. -/
  | opened
  /-- In a tag, and possibly in a quoted part of it. -/
  | tag (quote : Option Char) (body : List Char)
  /-- Just behind `<!`. -/
  | declared
  | comment (body : List Char)
  | section (body : List Char)
  /-- In a document type, with so many brackets open inside it. -/
  | doctype (depth : Nat) (body : List Char)
  /-- In an instruction; `body` begins with its question mark. -/
  | instruction (body : List Char)
  /-- Beyond a fault. -/
  | failed (e : MarkupError)
  deriving DecidableEq, Repr

/-- The state of the scan. -/
structure Scanner where
  /-- The events so far, the latest first. -/
  events : List Event := []
  /-- The names of the elements that are open, the innermost first. -/
  nesting : List (List Char) := []
  mode : Mode := .text []
  deriving DecidableEq, Repr

namespace Scanner

/-- Goes on in another mode. -/
def goto (s : Scanner) (mode : Mode) : Scanner :=
  { s with mode }

/-- Adds an event, and goes on with text. -/
def emit (s : Scanner) (e : Event) : Scanner :=
  { s with events := e :: s.events, mode := .text [] }

/-- Stops at a fault. -/
def fail (s : Scanner) (e : MarkupError) : Scanner :=
  s.goto (.failed e)

/-- The name in an end tag: blanks at its end do not belong to it, unless there is nothing else. -/
def endName (cs : List Char) : List Char :=
  if cs.all isSpace then cs else (cs.reverse.dropWhile isSpace).reverse

/-- Closes the innermost open element. -/
def closeElement (s : Scanner) (name : List Char) : Scanner :=
  match s.nesting with
  | [] => s.fail (.unmatchedEnd name)
  | expected :: outer =>
    if name = expected then { s with nesting := outer }.emit (.finish name)
    else s.fail (.mismatchedEnd name)

/-- Opens an element. -/
def openElement (s : Scanner) (tag : Tag) : Scanner :=
  { s with nesting := tag.name :: s.nesting }.emit (.start tag)

/-- Ends a tag, given what it holds in reverse. -/
def endTag (s : Scanner) (body : List Char) : Scanner :=
  match body.reverse, body with
  | '/' :: rest, _ => s.closeElement (endName rest)
  | _, '/' :: inner => s.emit (.empty (Tag.ofBody inner.reverse))
  | cs, _ => s.openElement (Tag.ofBody cs)

/-- Ends a comment, which has to begin with two dashes. -/
def endComment (s : Scanner) (body : List Char) : Scanner :=
  if body.reverse.take 2 = ['-', '-'] then s.emit .aside else s.fail .unfinished

/-- Ends a section, given what it holds in reverse, without the two brackets at its end. -/
def endSection (s : Scanner) (body : List Char) : Scanner :=
  if body.reverse.take 7 = ['[', 'C', 'D', 'A', 'T', 'A', '['] then
    s.emit (.section (body.reverse.drop 7))
  else
    s.fail .unfinished

/-- Ends a document type, which is announced in any letter case and has to have a name. -/
def endDoctype (s : Scanner) (body : List Char) : Scanner :=
  if (body.reverse.take 7).map Char.toUpper = ['D', 'O', 'C', 'T', 'Y', 'P', 'E'] then
    if (body.reverse.drop 7).all isSpace then s.fail .missingDoctypeName else s.emit .aside
  else
    s.fail .unfinished

/-- Reads a character inside a tag. -/
def stepTag (s : Scanner) (quote : Option Char) (body : List Char) (c : Char) : Scanner :=
  match quote with
  | some q => s.goto (.tag (if c = q then none else some q) (c :: body))
  | none =>
    if c = '>' then s.endTag body
    else s.goto (.tag (if c = '\'' ∨ c = '"' then some c else none) (c :: body))

/-- Reads one character. -/
def step (s : Scanner) (c : Char) : Scanner :=
  match s.mode with
  | .text run =>
    if c = '<' then
      (if run.isEmpty then s else s.emit (.text run.reverse)).goto .opened
    else
      s.goto (.text (c :: run))
  | .opened =>
    if c = '!' then s.goto .declared
    else if c = '?' then s.goto (.instruction [c])
    else s.stepTag none [] c
  | .tag quote body => s.stepTag quote body c
  | .declared =>
    if c = '-' then s.goto (.comment [c])
    else if c = '[' then s.goto (.section [c])
    else if c = 'D' ∨ c = 'd' then s.goto (.doctype 0 [c])
    else s.fail .invalidDeclaration
  | .comment body =>
    if c = '>' ∧ body.take 2 = ['-', '-'] ∧ 4 ≤ body.length then s.endComment body
    else s.goto (.comment (c :: body))
  | .section body =>
    if c = '>' ∧ body.take 2 = [']', ']'] then s.endSection (body.drop 2)
    else s.goto (.section (c :: body))
  | .doctype depth body =>
    if c = '>' then
      match depth with
      | 0 => s.endDoctype body
      | depth + 1 => s.goto (.doctype depth (c :: body))
    else
      s.goto (.doctype (if c = '<' then depth + 1 else depth) (c :: body))
  | .instruction body =>
    if c = '>' ∧ body.head? = some '?' then
      if body.length = 1 then s.fail .unfinished else s.emit .aside
    else
      s.goto (.instruction (c :: body))
  | .failed _ => s

/-- Reads some characters. -/
def run (s : Scanner) (cs : List Char) : Scanner :=
  cs.foldl step s

theorem run_append (s : Scanner) (cs ds : List Char) : s.run (cs ++ ds) = (s.run cs).run ds :=
  List.foldl_append

/-- The state at the end of the text: character data is complete, and anything else is not. -/
def finish (s : Scanner) : Scanner :=
  match s.mode with
  | .text run => if run.isEmpty then s else s.emit (.text run.reverse)
  | .failed _ => s
  | _ => s.fail .unfinished

/-- The fault at which the scan stopped. -/
def fault? (s : Scanner) : Option MarkupError :=
  match s.mode with
  | .failed e => some e
  | _ => none

end Scanner

/-- A text without the mark that may stand at its front to tell its encoding. -/
def dropByteOrderMark : List Char → List Char
  | '\ufeff' :: cs => cs
  | cs => cs

/-- The events of a text in order, and the fault that ended them, if there is one. -/
def scan (cs : List Char) : List Event × Option MarkupError :=
  let s := (({} : Scanner).run (dropByteOrderMark cs)).finish
  (s.events.reverse, s.fault?)

end Quadrille.Markup
