import Quadrille.Document.Basic
import Quadrille.Files.Store
import Quadrille.Number.Digit

/-!
# Settings files

The sizes of new documents can be set in a TOML file with at most the three keys `rows`, `columns`
and `history_limit`, each once and each with a whole number. Anything else in such a file is an
error, which leaves a small part of the language to be read: comments, blank lines, and lines with a
key and an integer. Keys may be quoted, and integers may carry a sign or be hexadecimal, octal or
binary, with underscores between digits.
-/

namespace Quadrille

/-- Why a file holds no settings. -/
inductive SettingsError where
  /-- There is no such file. -/
  | missing (path : String) (e : FileError)
  | tooLarge (path : String) (size : Nat)
  | unreadable (path : String) (e : FileError)
  /-- The file cannot be understood, from a line on that is counted from one. -/
  | unparsable (path : String) (line : Nat)
  deriving DecidableEq, Repr

/-- The settings that a file makes. -/
structure SettingsFile where
  rows : Option Nat := none
  columns : Option Nat := none
  historyLimit : Option Nat := none
  deriving DecidableEq, Repr

namespace SettingsFile

/-- The settings that a file makes, on top of others. -/
def apply (f : SettingsFile) (s : Settings) : Settings where
  rows := f.rows.getD s.rows
  columns := f.columns.getD s.columns
  historyLimit := f.historyLimit.getD s.historyLimit

/-- The size in bytes up to which settings files are read. -/
def largestSize : Nat := 65536

/-- The largest integer that TOML holds. -/
def largestInteger : Nat := 0x7FFFFFFFFFFFFFFF

/-! ### Lines -/

/-- Splits a text into lines, which end with a line feed or a carriage return and a line feed. -/
def lines (cs : List Char) : List (List Char) :=
  let pieces := cs.splitOn '\n'
  let ended := pieces.dropLast.map fun piece =>
    if piece.getLast? = some '\r' then piece.dropLast else piece
  ended ++ (pieces.getLast?).toList

/-- A text without the blanks of TOML at its front. -/
def skipSpace (cs : List Char) : List Char :=
  cs.dropWhile fun c => c == ' ' || c == '\t'

/-- Whether a character may stand in a comment: any but the control characters, of which only the
tab is allowed. -/
def isCommentChar (c : Char) : Bool :=
  c == '\t' || (' ' ≤ c && c != '\x7f')

/-- Whether the rest of a line is blank but for a comment. -/
def isLineEnd (cs : List Char) : Bool :=
  match skipSpace cs with
  | [] => true
  | '#' :: comment => comment.all isCommentChar
  | _ => false

/-! ### Keys -/

/-- Whether a character may stand in a key without quotation marks. -/
def isBareKeyChar (c : Char) : Bool :=
  c.isAlphanum || c == '-' || c == '_'

/-- The character with a code in exactly `width` hexadecimal digits, and what follows it. -/
def readCode? (width : Nat) (cs : List Char) : Option (Char × List Char) := do
  let digits := cs.take width
  if digits.length < width then failure
  let code ← (Count.readDigits 16 largestInteger 0 digits).toOption
  if code.isValidChar then return (Char.ofNat code, cs.drop width) else failure

/-- Reads the rest of a key in double quotation marks, and what follows it. Of the escapes only
those by number can be part of a known key; a key with another one is none. -/
def readQuotedKey? (fuel : Nat) (cs : List Char) : Option (List Char × List Char) :=
  match fuel, cs with
  | _, '"' :: rest => some ([], rest)
  | fuel + 1, '\\' :: 'u' :: rest => do
    let (c, rest) ← readCode? 4 rest
    let (key, rest) ← readQuotedKey? fuel rest
    return (c :: key, rest)
  | fuel + 1, '\\' :: 'U' :: rest => do
    let (c, rest) ← readCode? 8 rest
    let (key, rest) ← readQuotedKey? fuel rest
    return (c :: key, rest)
  | _, '\\' :: _ => none
  | fuel + 1, c :: rest => do
    let (key, rest) ← readQuotedKey? fuel rest
    return (c :: key, rest)
  | _, _ => none

/-- Reads a key, and what follows it. -/
def readKey? (cs : List Char) : Option (List Char × List Char) :=
  match cs with
  | '"' :: rest => readQuotedKey? rest.length rest
  | '\'' :: rest =>
    match rest.dropWhile (· != '\'') with
    | [] => none
    | _ :: after => some (rest.takeWhile (· != '\''), after)
  | _ => some (cs.takeWhile isBareKeyChar, cs.dropWhile isBareKeyChar)

/-! ### Integers -/

/-- The digits of an integer without the underscores, each of which stands between two digits. -/
def joinDigits? (cs : List Char) : Option (List Char) :=
  let groups := cs.splitOn '_'
  if groups.any List.isEmpty then none else some groups.flatten

/-- Reads digits in a given base. -/
def readInBase? (base : Nat) (cs : List Char) : Option Nat := do
  let digits ← joinDigits? cs
  (Count.readDigits base largestInteger 0 digits).toOption

/-- Reads a decimal integer without its sign. There is no zero at the front of another digit. -/
def readDecimal? (cs : List Char) : Option Nat :=
  match cs with
  | '0' :: _ :: _ => none
  | _ => readInBase? 10 cs

/-- Reads an integer, which must not be negative. -/
def readInteger? (cs : List Char) : Option Nat :=
  match cs with
  | '0' :: 'x' :: rest => readInBase? 16 rest
  | '0' :: 'o' :: rest => readInBase? 8 rest
  | '0' :: 'b' :: rest => readInBase? 2 rest
  | '+' :: rest => readDecimal? rest
  | '-' :: rest => (readDecimal? rest).filter (· == 0)
  | _ => readDecimal? cs

/-- Whether a character may stand in an integer. -/
def isIntegerChar (c : Char) : Bool :=
  c.isAlphanum || c == '+' || c == '-' || c == '_'

/-! ### Files -/

/-- Makes one setting, unless it has been made or there is no such setting. -/
def assign? (f : SettingsFile) (key : List Char) (n : Nat) : Option SettingsFile :=
  if key = "rows".toList then
    if f.rows.isSome then none else some { f with rows := some n }
  else if key = "columns".toList then
    if f.columns.isSome then none else some { f with columns := some n }
  else if key = "history_limit".toList then
    if f.historyLimit.isSome then none else some { f with historyLimit := some n }
  else
    none

/-- Reads one line. -/
def readLine? (f : SettingsFile) (line : List Char) : Option SettingsFile :=
  if isLineEnd line then some f
  else do
    let (key, rest) ← readKey? (skipSpace line)
    match skipSpace rest with
    | '=' :: rest =>
      let rest := skipSpace rest
      let n ← readInteger? (rest.takeWhile isIntegerChar)
      if isLineEnd (rest.dropWhile isIntegerChar) then f.assign? key n else none
    | _ => none

/-- Reads lines, of which the first has the number `line`. -/
def readLines (f : SettingsFile) (line : Nat) : List (List Char) → Except Nat SettingsFile
  | [] => .ok f
  | cs :: rest =>
    match f.readLine? cs with
    | some f => readLines f (line + 1) rest
    | none => .error line

/-- The settings that a text makes, or the number of the first line that is wrong. -/
def ofText (s : String) : Except Nat SettingsFile :=
  match s.toList with
  | '\ufeff' :: cs => readLines {} 1 (lines cs)
  | cs => readLines {} 1 (lines cs)

end SettingsFile

/-- The wording of a complaint about settings. -/
def SettingsError.message : SettingsError → String
  | .missing path e => s!"Config file not found: {path}: {e.message}"
  | .tooLarge path size =>
    s!"Refusing to read {path}: file too large ({size} bytes, max {SettingsFile.largestSize})"
  | .unreadable path e => s!"Failed to read {path}: {e.message}"
  | .unparsable path line => s!"Failed to parse {path}: TOML parse error at line {line}"

namespace Settings

variable {m : Type → Type} [Monad m] [FileStore m]

/-- The default settings with those of a file on top. -/
def load (path : String) : m (Except SettingsError Settings) := do
  match ← FileStore.size path with
  | .error e => return .error (.missing path e)
  | .ok size =>
    if SettingsFile.largestSize < size then return .error (.tooLarge path size)
    else
      match ← FileStore.readText path with
      | .error e => return .error (.unreadable path e)
      | .ok text =>
        match SettingsFile.ofText text with
        | .error line => return .error (.unparsable path line)
        | .ok f => return .ok (f.apply {})

/-- The settings of an explicit file, or else of the user's own file if it exists. -/
def resolve (explicit userFile : Option String) : m (Except SettingsError Settings) := do
  match explicit, userFile with
  | some path, _ => load path
  | none, none => return .ok {}
  | none, some path =>
    match ← FileStore.size path with
    | .ok _ => load path
    | .error _ => return .ok {}

end Settings

end Quadrille
