import Quadrille.Number.Count
import Quadrille.Text.Blank
import Quadrille.Text.Quoted

/-!
# Command-line options

The arguments of the program are read one after another. Options that can be given several times
either add up, as edits and colors do, or replace what was given before. Asking for help ends the
reading at once, as does the first argument that is wrong.
-/

namespace Quadrille

/-- What the command line asks for. -/
structure Options where
  /-- The document to begin with. -/
  file : Option String := none
  /-- Cell names and texts, in the order given. -/
  edits : List (String × String) := []
  /-- Cell names and colors, in the order given. -/
  colors : List (String × String) := []
  /-- How many steps to undo. -/
  undo : Nat := 0
  /-- Where to save the document. -/
  output : Option String := none
  rows : Option Nat := none
  columns : Option Nat := none
  /-- The settings file to use. -/
  config : Option String := none
  /-- Whether to leave the user's own settings file alone. -/
  ignoreUserConfig : Bool := false
  deriving DecidableEq, Repr

/-- What is wrong with a command line. -/
inductive UsageError where
  | missingValue (flag : String)
  | unknownOption (argument : String)
  | unexpectedArgument (argument : String)
  | notAnAssignment (flag value : String)
  | notACount (flag value : String)
  deriving DecidableEq, Repr

namespace UsageError

/-- The wording of a complaint about a command line. -/
def message : UsageError → String
  | .missingValue flag => s!"{flag} requires a value"
  | .unknownOption argument => s!"Unknown option: {argument}"
  | .unexpectedArgument argument => s!"Unexpected argument: {argument}"
  | .notAnAssignment flag value => s!"{flag} expects CELL=VALUE, got {Text.quoted value}"
  | .notACount flag value => s!"{flag} expects a non-negative number, got {Text.quoted value}"

/-- Whether the complaint is followed by a reminder of the usage. -/
def recallsUsage : UsageError → Bool
  | .unknownOption _ | .unexpectedArgument _ => true
  | _ => false

end UsageError

/-- The outcome of reading a command line. -/
inductive Invocation where
  | help
  | refused (e : UsageError)
  | run (options : Options)
  deriving DecidableEq, Repr

namespace Options

/-- The usage of the program, line by line. -/
def usage : List String := [
  "Usage: cellgrid [OPTIONS] [FILE]",
  "",
  "Arguments:",
  "  [FILE]                    Spreadsheet to load (.xml)",
  "",
  "Options:",
  "  -s, --set <CELL=TEXT>     Set a cell's text (can be repeated)",
  "      --color <CELL=ARGB>   Set a cell's background color (can be repeated)",
  "  -u, --undo <N>            Undo the last N edits",
  "  -o, --output <FILE>       Save the resulting sheet as XML",
  "      --rows <N>            Number of rows",
  "      --columns <N>         Number of columns",
  "      --config <FILE>       Read settings from a TOML file",
  "      --no-default-config   Ignore the per-user config.toml",
  "  -h, --help                Print help"]

/-- The options that take a value. -/
inductive Flag where
  | set
  | color
  | undo
  | output
  | rows
  | columns
  | config
  deriving DecidableEq, Repr

/-- The option that an argument stands for, if it takes a value. -/
def Flag.ofArgument? (argument : String) : Option Flag :=
  if argument = "-s" ∨ argument = "--set" then some .set
  else if argument = "--color" then some .color
  else if argument = "-u" ∨ argument = "--undo" then some .undo
  else if argument = "-o" ∨ argument = "--output" then some .output
  else if argument = "--rows" then some .rows
  else if argument = "--columns" then some .columns
  else if argument = "--config" then some .config
  else none

/-- The two sides of an assignment. Blanks around the cell name do not belong to it; all that
follows the first equals sign is the other side. -/
def splitAssignment (flag value : String) : Except UsageError (String × String) :=
  match value.toList.dropWhile (· != '=') with
  | [] => .error (.notAnAssignment flag value)
  | _ :: rest =>
    .ok (String.ofList (Text.trim (value.toList.takeWhile (· != '='))), String.ofList rest)

/-- Reads a count, around which there may be blanks. -/
def readCount (flag value : String) : Except UsageError Nat :=
  match Count.ofText? Count.largest (Text.trim value.toList) with
  | some n => .ok n
  | none => .error (.notACount flag value)

/-- Takes up an option with its value. The argument is as it was typed. -/
def apply (o : Options) (flag : Flag) (argument value : String) : Except UsageError Options := do
  match flag with
  | .set => return { o with edits := o.edits ++ [← splitAssignment argument value] }
  | .color => return { o with colors := o.colors ++ [← splitAssignment argument value] }
  | .undo => return { o with undo := ← readCount argument value }
  | .output => return { o with output := some value }
  | .rows => return { o with rows := some (← readCount argument value) }
  | .columns => return { o with columns := some (← readCount argument value) }
  | .config => return { o with config := some value }

/-- Reads the arguments that follow those in `o`. -/
def readArguments (o : Options) : List String → Invocation
  | [] => .run o
  | argument :: rest =>
    if argument = "-h" ∨ argument = "--help" then .help
    else if argument = "--no-default-config" then
      readArguments { o with ignoreUserConfig := true } rest
    else
      match Flag.ofArgument? argument, rest with
      | some _, [] => .refused (.missingValue argument)
      | some flag, value :: rest =>
        match o.apply flag argument value with
        | .ok o => readArguments o rest
        | .error e => .refused e
      | none, rest =>
        if argument.startsWith "-" then .refused (.unknownOption argument)
        else if o.file.isSome then .refused (.unexpectedArgument argument)
        else readArguments { o with file := some argument } rest

/-- Reads a command line, without the name of the program. -/
def ofArguments (arguments : List String) : Invocation :=
  readArguments {} arguments

end Options

end Quadrille
