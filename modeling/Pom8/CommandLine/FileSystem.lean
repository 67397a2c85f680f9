import Pom8.Source

/-!
# File systems

A program knows a file system by its answers.  It asks for the bytes of the file at
a path, it creates a file at a path, and it adds text to a file that it has created.
Where a path leads and what is refused is for the file system to say.
-/

namespace Pom8.CommandLine

/-- The reasons for which a file cannot be read or written. -/
inductive FileFault where
  /-- The system refuses, with a reason and its number. -/
  | system (reason : String) (number : Nat)
  /-- The bytes of the file are no text. -/
  | notText
  deriving DecidableEq, Repr

/-- The message of a fault. -/
def FileFault.message : FileFault → String
  | system reason number => s!"{reason} (os error {number})"
  | notText => "stream did not contain valid UTF-8"

/-- A file system, by what it does in each of its states. -/
class FileSystem (Disk : Type) where
  /-- The files that have been opened for writing. -/
  Handle : Type
  /-- The bytes of the file at a path. -/
  read : Disk → String → Except FileFault ByteArray
  /-- Opens a file at a path, without its former content if there was one.  Nothing
  changes when this is refused. -/
  create : Disk → String → Except FileFault (Handle × Disk)
  /-- Adds text to an open file.  When a fault stops this, a part of the text may have
  been added. -/
  append : Handle → String → Disk → Option FileFault × Disk
  /-- Completes what has been added to an open file. -/
  flush : Handle → Disk → Option FileFault

namespace FileSystem

variable {Disk : Type} [FileSystem Disk]

/-- The text of the file at a path. -/
def readText (disk : Disk) (path : String) : Except FileFault String := do
  match String.fromUTF8? (← read disk path) with
  | some text => .ok text
  | none => .error .notText

/-- Adds lines to an open file one by one, up to the first fault, and completes it. -/
def appendLines (handle : Handle Disk) : List String → Disk → Option FileFault × Disk
  | [], disk => (flush handle disk, disk)
  | line :: rest, disk =>
    match append handle (line ++ Source.lineBreak) disk with
    | (some fault, next) => (some fault, next)
    | (none, next) => appendLines handle rest next

/-- Writes lines to the file at a path.  The fault that stops this, if there is one,
comes with the disk as it is left. -/
def writeLines (disk : Disk) (path : String) (lines : List String) :
    Option FileFault × Disk :=
  match create disk path with
  | .error fault => (some fault, disk)
  | .ok (handle, created) => appendLines handle lines created

end FileSystem
end Pom8.CommandLine
