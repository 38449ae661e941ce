import Quadrille.CommandLine.Run

/-!
# The program

The command line, run on the files of the computer. Everything that the program decides is decided
elsewhere; here the paths are opened and the report is printed.
-/

namespace Quadrille

/-- The code by which the system says that a directory is in the way. -/
def directoryCode : UInt32 := 21

/-- What a complaint of the system about a path means. -/
def FileError.ofSystem (path : String) : IO.Error → FileError
  | .noFileOrDirectory .. => .notFound
  | .inappropriateType _ code _ => if code = directoryCode then .isDirectory else .notDirectory
  | .permissionDenied .. => .permissionDenied
  | .invalidArgument .. => if path.contains '\x00' then .nullInPath else .nameTooLong
  | e => .other (toString e)

/-- Does something with a path of the computer. -/
def onSystem {α : Type} (path : String) (act : IO α) : IO (Except FileError α) := do
  match ← act.toBaseIO with
  | .ok a => return .ok a
  | .error e => return .error (FileError.ofSystem path e)

/-- The files of the computer. A directory counts as empty until it is read. -/
instance : FileStore IO where
  size path := do
    match ← onSystem path (IO.FS.readBinFile path) with
    | .ok bytes => return .ok bytes.size
    | .error .isDirectory => return .ok 0
    | .error e => return .error e
  readBytes path := onSystem path (IO.FS.readBinFile path)
  writeBytes path contents := onSystem path (IO.FS.writeBinFile path contents)

/-- The path of the user's own settings file, if there is a directory for such files. -/
def userConfigPath : IO (Option String) := do
  let named := (← IO.getEnv "XDG_CONFIG_HOME").filter fun directory => directory.startsWith "/"
  let usual := ((← IO.getEnv "HOME").filter fun home => !home.isEmpty).map (· ++ "/.config")
  return (named <|> usual).map (· ++ "/cellgrid/config.toml")

end Quadrille

/-- Runs the program, prints its report and ends with its exit code. -/
def main (arguments : List String) : IO UInt32 := do
  let report ← Quadrille.CommandLine.run arguments (← Quadrille.userConfigPath)
  (← IO.getStdout).putStr report.stdout
  (← IO.getStderr).putStr report.stderr
  return UInt32.ofNat report.exitCode
