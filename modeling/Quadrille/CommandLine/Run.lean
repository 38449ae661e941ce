import Quadrille.CommandLine.Options
import Quadrille.CommandLine.SettingsFile
import Quadrille.Document.File

/-!
# Running a command line

A run makes a document of the sizes that the options and settings ask for, loads a file into it if
there is one, edits its cells, then colors them, then undoes steps, and reports the cells that have
text. At last the document is saved, if it is to be. The order of the options of different kinds
does not matter, and nothing is printed or written before everything that can go wrong earlier has
gone well.
-/

namespace Quadrille

/-- Why a run ends early. -/
inductive RunError where
  | settings (e : SettingsError)
  | load (path : String) (e : DocumentError)
  | save (path : String) (e : DocumentError)
  | invalidCellName (name : String)
  | invalidColor (color : String) (e : CountError)
  | outOfRange (e : OutOfRange)
  deriving DecidableEq, Repr

/-- The wording of a complaint about a run, with what is behind it. -/
def RunError.message : RunError → String
  | .settings e => e.message
  | .load path e => s!"Failed to load {path}: {e.fullMessage}"
  | .save path e => s!"Failed to save {path}: {e.fullMessage}"
  | .invalidCellName name => s!"Invalid cell name: {name}"
  | .invalidColor color e => s!"Invalid color: {Text.quoted color}: {e.message}"
  | .outOfRange e => e.message

/-- What a run leaves behind besides files. -/
structure Report where
  exitCode : Nat := 0
  stdout : String := ""
  stderr : String := ""
  deriving DecidableEq, Repr

namespace CommandLine

/-- Lines of text. -/
def unlines (lines : List String) : String :=
  String.join (lines.map (· ++ "\n"))

/-- A color as it is typed: decimal, or hexadecimal behind `0x`. -/
def readColor (text : String) : Except RunError Color :=
  let trimmed := Text.trim text.toList
  let result :=
    match trimmed with
    | '0' :: 'x' :: digits => Count.read 16 Count.largestColor digits
    | '0' :: 'X' :: digits => Count.read 16 Count.largestColor digits
    | _ => Count.read 10 Count.largestColor trimmed
  match result with
  | .ok n => .ok (UInt32.ofNat n)
  | .error e => .error (.invalidColor (String.ofList trimmed) e)

variable {shape : Shape}

/-- The address of a cell that has to lie in the grid. -/
def cellAddress (shape : Shape) (name : String) : Except RunError Address :=
  match shape.named? name with
  | some p => .ok (shape.address p)
  | none => .error (.invalidCellName name)

/-- Sets the text of a cell. -/
def applyEdit (d : Document shape) (edit : String × String) :
    Except RunError (Document shape) := do
  let a ← cellAddress shape edit.1
  let outcome ← (d.setText a edit.2).mapError .outOfRange
  return outcome.document

/-- Sets the color of a cell. -/
def applyColor (d : Document shape) (edit : String × String) :
    Except RunError (Document shape) := do
  let a ← cellAddress shape edit.1
  let color ← readColor edit.2
  let outcome ← (d.setColor a color).mapError .outOfRange
  return outcome.document

/-- Undoes as many steps as there are, up to a number. -/
def undoSteps (d : Document shape) : Nat → Document shape
  | 0 => d
  | n + 1 =>
    match d.undo? with
    | some outcome => undoSteps outcome.document n
    | none => d

/-- Edits, colors and undoes. -/
def work (o : Options) (d : Document shape) : Except RunError (Document shape) := do
  let d ← o.edits.foldlM applyEdit d
  let d ← o.colors.foldlM applyColor d
  return undoSteps d o.undo

/-- The report on a run that ends early, after it has printed `stdout`. -/
def failed (e : RunError) (stdout : String) : Report :=
  { exitCode := 1, stdout, stderr := unlines [s!"Error: {e.message}"] }

variable {m : Type → Type} [Monad m] [FileStore m]

/-- Loads the document to begin with, if there is one. -/
def loadInput (o : Options) (d : Document shape) : m (Except RunError (Document shape)) := do
  match o.file with
  | none => return .ok d
  | some path =>
    match ← d.loadFile path with
    | .ok outcome => return .ok outcome.document
    | .error e => return .error (.load path e)

/-- Reports on a document, and saves it if it is to be saved. -/
def conclude (o : Options) (d : Document shape) : m Report := do
  let stdout := unlines d.listing
  match o.output with
  | none => return { stdout }
  | some path =>
    match (← d.saveAs path).2 with
    | .ok _ => return { stdout, stderr := unlines [s!"Saved to {path}"] }
    | .error e => return failed (.save path e) stdout

/-- The settings of a run: the options count more than a settings file. -/
def settings (o : Options) (userConfig : Option String) : m (Except RunError Settings) := do
  match ← Settings.resolve o.config (if o.ignoreUserConfig then none else userConfig) with
  | .error e => return .error (.settings e)
  | .ok s => return .ok { s with rows := o.rows.getD s.rows, columns := o.columns.getD s.columns }

/-- Runs the program with some options. -/
def runOptions (o : Options) (userConfig : Option String) : m Report := do
  match ← settings o userConfig with
  | .error e => return failed e ""
  | .ok s =>
    match ← loadInput o (Document.blank s.shape s.historyLimit) with
    | .error e => return failed e ""
    | .ok d =>
      match work o d with
      | .error e => return failed e ""
      | .ok d => conclude o d

/-- Runs the program with some arguments. The path is that of the user's own settings file. -/
def run (arguments : List String) (userConfig : Option String) : m Report := do
  match Options.ofArguments arguments with
  | .help => return { stderr := unlines Options.usage }
  | .refused e =>
    return {
      exitCode := 1
      stderr := unlines (s!"Error: {e.message}" :: if e.recallsUsage then Options.usage else []) }
  | .run o => runOptions o userConfig

end CommandLine

end Quadrille
