/-!
# Files

What the program asks of the files around it: the size of a file, its contents, and to be written.
Everything that works with files is stated for any `FileStore`, so that the same definitions run on
the files of a computer and on a disk that is a plain value.
-/

namespace Quadrille

/-- Why a file cannot be used. -/
inductive FileError where
  | notFound
  | isDirectory
  | notDirectory
  | nameTooLong
  | permissionDenied
  /-- The path holds a null character. -/
  | nullInPath
  /-- The contents are no text. -/
  | notText
  /-- The system refuses for another reason. -/
  | other (description : String)
  deriving DecidableEq, Repr

/-- The wording of a complaint about a file. -/
def FileError.message : FileError → String
  | .notFound => "No such file or directory (os error 2)"
  | .isDirectory => "Is a directory (os error 21)"
  | .notDirectory => "Not a directory (os error 20)"
  | .nameTooLong => "File name too long (os error 36)"
  | .permissionDenied => "Permission denied (os error 13)"
  | .nullInPath => "file name contained an unexpected NUL byte"
  | .notText => "stream did not contain valid UTF-8"
  | .other description => description

/-- Access to files. -/
class FileStore (m : Type → Type) where
  /-- The size of a file in bytes. -/
  size : String → m (Except FileError Nat)
  /-- The contents of a file. -/
  readBytes : String → m (Except FileError ByteArray)
  /-- Replaces the contents of a file, making it if need be. -/
  writeBytes : String → ByteArray → m (Except FileError Unit)

namespace FileStore

variable {m : Type → Type} [Monad m] [FileStore m]

/-- The text that some bytes encode. -/
def decode (bytes : ByteArray) : Except FileError String :=
  match String.fromUTF8? bytes with
  | some s => .ok s
  | none => .error .notText

/-- The contents of a text file. -/
def readText (path : String) : m (Except FileError String) := do
  return (← readBytes path).bind decode

/-- Replaces the contents of a text file. -/
def writeText (path : String) (s : String) : m (Except FileError Unit) :=
  writeBytes path s.toUTF8

end FileStore

end Quadrille
