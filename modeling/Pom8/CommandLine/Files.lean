import Pom8.CommandLine.FileSystem

/-!
# Files in directories

A file system of directories and files.  A path is walked name by name, from the
root or from the working directory, and leads to a directory or to a name in one.
There are no links, no devices and no permissions; all that keeps a file from being
written is its path and its size.
-/

namespace Pom8.CommandLine

namespace FileFault

/-- Nothing has the name. -/
def missing : FileFault := system "No such file or directory" 2

/-- The path goes through a file. -/
def notDirectory : FileFault := system "Not a directory" 20

/-- The path leads to a directory. -/
def isDirectory : FileFault := system "Is a directory" 21

/-- The file would grow beyond the size that it can have. -/
def tooLarge : FileFault := system "File too large" 27

/-- The path, or a name in it, has too many bytes. -/
def nameTooLong : FileFault := system "File name too long" 36

end FileFault

/-- A directory, by the names on the way up to the root. -/
abbrev Directory := List String

namespace Directory

/-- The root directory. -/
def root : Directory := []

/-- The directory above; the root directory stands above itself. -/
def parent (directory : Directory) : Directory :=
  directory.tail

end Directory

/-- A name in a directory. -/
structure Location where
  directory : Directory
  name : String
  deriving DecidableEq, Repr

/-- Whether the name has more bytes than a file system takes. -/
def Location.isTooLong (location : Location) : Bool :=
  location.name.utf8ByteSize > 255

/-- Where a path leads. -/
inductive Target where
  | directory (directory : Directory)
  | entry (location : Location)
  deriving DecidableEq, Repr

namespace Path

/-- The names of a path, between its slashes. -/
def names (path : String) : List String :=
  ((path.toList.splitOnP (· == '/')).filter (!·.isEmpty)).map String.ofList

/-- Whether a path is walked from the root. -/
def isAbsolute (path : String) : Bool :=
  path.toList.head? == some '/'

/-- Whether a path ends in a slash, which marks its last name as a directory. -/
def endsInSlash (path : String) : Bool :=
  path.toList.getLast? == some '/'

/-- Whether a path has more bytes than a system takes. -/
def isTooLong (path : String) : Bool :=
  path.utf8ByteSize > 4095

end Path

/-- A file with its content. -/
structure File where
  location : Location
  content : ByteArray

/-- Directories and the files in them. -/
structure Files where
  /-- The directory from which paths are walked that do not start at the root. -/
  working : Directory := .root
  /-- The directories other than the root. -/
  directories : List Directory := []
  entries : List File
  /-- The size that no file can exceed, if there is one. -/
  largest : Option Nat := none

namespace Files

/-- The file at a location. -/
def find? (files : Files) (location : Location) : Option File :=
  files.entries.find? fun file => file.location == location

/-- The fault of a path that goes on after a name that is no directory. -/
def faultBelow (files : Files) (location : Location) : FileFault :=
  if location.isTooLong then .nameTooLong
  else if (files.find? location).isSome then .notDirectory
  else .missing

/-- Walks names from a directory.  A dot stays, and two dots go up. -/
def walk (files : Files) (directory : Directory) :
    List String → Except FileFault Target
  | [] => .ok (.directory directory)
  | name :: rest =>
    if name = "." then walk files directory rest
    else if name = ".." then walk files directory.parent rest
    else if name :: directory ∈ files.directories then
      walk files (name :: directory) rest
    else if rest.isEmpty then .ok (.entry ⟨directory, name⟩)
    else .error (files.faultBelow ⟨directory, name⟩)

/-- The directory from which a path is walked. -/
def start (files : Files) (path : String) : Directory :=
  if Path.isAbsolute path then .root else files.working

/-- Where a path leads, unless it cannot be walked to its end. -/
def locate (files : Files) (path : String) : Except FileFault Target :=
  if path.isEmpty then .error .missing
  else if Path.isTooLong path then .error .nameTooLong
  else files.walk (files.start path) (Path.names path)

/-- The content of the file at a path. -/
def read (files : Files) (path : String) : Except FileFault ByteArray := do
  match (← files.locate path) with
  | .directory _ => .error .isDirectory
  | .entry location =>
    if location.isTooLong then .error .nameTooLong
    else
      match files.find? location with
      | none => .error .missing
      | some file =>
        if Path.endsInSlash path then .error .notDirectory
        else .ok file.content

/-- The files after one has taken the place of what stood at its location. -/
def put (files : Files) (file : File) : Files :=
  if (files.find? file.location).isSome then
    { files with
      entries := files.entries.map fun old =>
        if old.location == file.location then file else old }
  else { files with entries := files.entries ++ [file] }

/-- An empty file at a path, and the files with it. -/
def create (files : Files) (path : String) : Except FileFault (Location × Files) := do
  match (← files.locate path) with
  | .directory _ => .error .isDirectory
  | .entry location =>
    if Path.endsInSlash path then .error .isDirectory
    else if location.isTooLong then .error .nameTooLong
    else .ok (location, files.put ⟨location, .empty⟩)

/-- As many of some bytes as a file can take that has a size already. -/
def fitting (files : Files) (size : Nat) (bytes : ByteArray) : ByteArray :=
  match files.largest with
  | none => bytes
  | some largest => bytes.extract 0 (largest - size)

/-- Adds text to the file at a location, as far as it fits. -/
def append (location : Location) (text : String) (files : Files) :
    Option FileFault × Files :=
  match files.find? location with
  | none => (some .missing, files)
  | some file =>
    let added := files.fitting file.content.size text.toUTF8
    (if added.size = text.utf8ByteSize then none else some .tooLarge,
      files.put ⟨location, file.content ++ added⟩)

instance : FileSystem Files where
  Handle := Location
  read := read
  create := create
  append := append
  flush _ _ := none

end Files
end Pom8.CommandLine
