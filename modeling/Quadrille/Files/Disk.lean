import Quadrille.Files.Store

/-!
# Disks

A disk is a tree of directories and files, kept as the list of its entries, with one directory to
which relative paths refer. Operations on it are functions, so a run of the program on a disk is a
value that can be compared with another.

A path is followed from directory to directory, as a computer does it: every step has to be taken
from a directory that exists, also the steps `.` and `..`, and only the last may lead to something
that is missing, where a file is to be made.
-/

namespace Quadrille

/-- What is at a place on a disk. -/
inductive DiskNode where
  | directory
  | file (contents : ByteArray)

/-- The names on the way from the top of a disk, the last first. -/
abbrev Location := List String

/-- A tree of directories and files. -/
structure Disk where
  /-- The directory to which relative paths refer. -/
  workingDirectory : Location := []
  /-- What there is below the top. -/
  entries : List (Location × DiskNode) := []

namespace Disk

/-- What is at a location; at the top there is always a directory. -/
def node? (d : Disk) : Location → Option DiskNode
  | [] => some .directory
  | location => d.entries.lookup location

/-- Puts something at a location. -/
def put (d : Disk) (location : Location) (node : DiskNode) : Disk :=
  { d with
    entries :=
      if (d.entries.lookup location).isSome then
        d.entries.map fun (l, old) => (l, if l == location then node else old)
      else
        d.entries ++ [(location, node)] }

/-- The names in a path. The names `.` and `..` stay, since a step from a directory is taken for
them too. -/
def names (path : String) : List String :=
  ((path.toList.splitOn '/').map String.ofList).filter (· ≠ "")

/-- Whether a path ends with a slash, with which it insists on a directory. -/
def endsWithSlash (path : String) : Bool :=
  path.endsWith "/"

/-- Where a path begins. -/
def start (d : Disk) (path : String) : Location :=
  if path.startsWith "/" then [] else d.workingDirectory

/-- Where a name leads to from a directory. At the top, `..` stays there. -/
def step (location : Location) (name : String) : Location :=
  if name = "." then location
  else if name = ".." then location.tail
  else name :: location

/-- The number of bytes that a name may have. -/
def longestName : Nat := 255

/-- The number of bytes that a path may have. -/
def longestPath : Nat := 4095

/-- Checks a path before it is followed. -/
def checkPath (path : String) : Except FileError Unit :=
  if path.contains '\x00' then .error .nullInPath
  else if path.isEmpty then .error .notFound
  else if longestPath < path.utf8ByteSize then .error .nameTooLong
  else .ok ()

/-- Goes one step from a location, which has to be a directory. -/
def enter (d : Disk) (location : Location) (name : String) : Except FileError Location :=
  match d.node? location with
  | none => .error .notFound
  | some (.file _) => .error .notDirectory
  | some .directory =>
    if longestName < name.utf8ByteSize then .error .nameTooLong else .ok (step location name)

/-- What a path leads to. -/
def find (d : Disk) (path : String) : Except FileError DiskNode := do
  checkPath path
  let location ← (names path).foldlM d.enter (d.start path)
  match d.node? location with
  | none => throw .notFound
  | some .directory => return .directory
  | some (.file contents) =>
    if endsWithSlash path then throw .notDirectory else return .file contents

/-- The location at which a path asks for a file to be written. Whether the path can name a file at
all is settled before its last name is looked at: a path that ends with a slash cannot, even if
there is a file of that name. -/
def target (d : Disk) (path : String) : Except FileError Location := do
  checkPath path
  match (names path).getLast? with
  | none => throw .isDirectory
  | some last =>
    let directory ← ((names path).dropLast ++ ["."]).foldlM d.enter (d.start path)
    if last = "." ∨ last = ".." ∨ endsWithSlash path then throw .isDirectory
    else d.enter directory last

/-- The size that is reported for a directory. -/
def directorySize : Nat := 4096

/-- The size of what a path leads to. -/
def size (d : Disk) (path : String) : Except FileError Nat := do
  match ← d.find path with
  | .directory => return directorySize
  | .file contents => return contents.size

/-- The contents of a file. -/
def read (d : Disk) (path : String) : Except FileError ByteArray := do
  match ← d.find path with
  | .directory => throw .isDirectory
  | .file contents => return contents

/-- The disk after writing a file. -/
def write (d : Disk) (path : String) (contents : ByteArray) : Except FileError Disk := do
  let location ← d.target path
  match d.node? location with
  | some .directory => throw .isDirectory
  | _ => return d.put location (.file contents)

/-- The disk with a directory at a location, unless something is there. -/
def withDirectory (d : Disk) (location : Location) : Disk :=
  if (d.node? location).isSome then d else d.put location .directory

/-- The disk with the directories on the way to a path. -/
def withDirectoriesTo (d : Disk) (path : String) : Disk :=
  (names path).dropLast.foldl
    (fun (d, location) name => (d.withDirectory (step location name), step location name))
    (d, d.start path) |>.1

/-- The disk with a file and the directories on the way to it. If the file cannot be written, only
the directories are new. -/
def withFile (d : Disk) (path : String) (contents : ByteArray) : Disk :=
  let d := d.withDirectoriesTo path
  (d.write path contents).toOption.getD d

end Disk

instance : FileStore (StateM Disk) where
  size path := do return (← get).size path
  readBytes path := do return (← get).read path
  writeBytes path contents := do
    match (← get).write path contents with
    | .ok d =>
      set d
      return .ok ()
    | .error e => return .error e

end Quadrille
