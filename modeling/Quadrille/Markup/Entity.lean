import Quadrille.Number.Count

/-!
# Entities

Characters that markup gives a meaning to are written as entities inside text. `Markup.escape` is
how texts are written here. `Markup.unescape?` reads texts from anywhere: the five named entities
and characters given by number; any other use of the ampersand is an error.

Reading is a scan from left to right with one state, so it can be followed through a concatenation
(`Unescape.run_append`).
-/

namespace Quadrille.Markup

/-- The characters that a character of text is written with. -/
def escapeChar (c : Char) : List Char :=
  if c = '<' then ['&', 'l', 't', ';']
  else if c = '>' then ['&', 'g', 't', ';']
  else if c = '&' then ['&', 'a', 'm', 'p', ';']
  else if c = '\'' then ['&', 'a', 'p', 'o', 's', ';']
  else if c = '"' then ['&', 'q', 'u', 'o', 't', ';']
  else [c]

/-- A text as it is written in markup. -/
def escape (cs : List Char) : List Char :=
  cs.flatMap escapeChar

/-- The character with a given code, unless it is zero or no character has it. -/
def charOfCode? (code : Nat) : Option Char :=
  if code ≠ 0 ∧ code.isValidChar then some (Char.ofNat code) else none

/-- The largest number that is looked at as the code of a character. -/
def largestCode : Nat := 0xFFFFFFFF

/-- A code written in digits, at least one and without a sign. -/
def readCode? (base : Nat) : List Char → Option Nat
  | [] => none
  | cs => (Count.readDigits base largestCode 0 cs).toOption

/-- The character that an entity stands for, given what is between the ampersand and the
semicolon. -/
def entity? : List Char → Option Char
  | ['l', 't'] => some '<'
  | ['g', 't'] => some '>'
  | ['a', 'm', 'p'] => some '&'
  | ['a', 'p', 'o', 's'] => some '\''
  | ['q', 'u', 'o', 't'] => some '"'
  | '#' :: 'x' :: cs => (readCode? 16 cs).bind charOfCode?
  | '#' :: cs => (readCode? 10 cs).bind charOfCode?
  | _ => none

/-- The state of reading a text with entities. What has been collected is kept in reverse. -/
inductive Unescape where
  /-- Outside entities, after the characters in `out`. -/
  | plain (out : List Char)
  /-- Inside an entity, after the characters in `out` and the part `name` of the entity. -/
  | inEntity (out name : List Char)
  /-- Beyond an invalid entity. -/
  | invalid
  deriving DecidableEq, Repr

namespace Unescape

/-- Reads one character. -/
def step : Unescape → Char → Unescape
  | .plain out, c => if c = '&' then .inEntity out [] else .plain (c :: out)
  | .inEntity out name, c =>
    if c = ';' then
      match entity? name.reverse with
      | some x => .plain (x :: out)
      | none => .invalid
    else if c = '&' then .invalid
    else .inEntity out (c :: name)
  | .invalid, _ => .invalid

/-- Reads some characters. -/
def run (s : Unescape) (cs : List Char) : Unescape :=
  cs.foldl step s

theorem run_append (s : Unescape) (cs ds : List Char) : s.run (cs ++ ds) = (s.run cs).run ds :=
  List.foldl_append

/-- The text that has been read, if it is complete. -/
def finish? : Unescape → Option (List Char)
  | .plain out => some out.reverse
  | _ => none

end Unescape

/-- The text that markup stands for, unless there is an invalid entity in it. -/
def unescape? (cs : List Char) : Option (List Char) :=
  ((Unescape.plain []).run cs).finish?

end Quadrille.Markup
