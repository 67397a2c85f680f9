import Pom8.CommandLine.Session
import Std.Time

/-!
# The command line program

Reads and writes files for the sessions of `Pom8.CommandLine`.  Log lines carry
the local time.
-/

namespace Pom8.CommandLine

/-- The fault that an error of the system stands for. -/
def FileFault.ofError : IO.Error → FileFault
  | .noFileOrDirectory _ number reason
  | .interrupted _ number reason
  | .alreadyExists _ number reason
  | .invalidArgument _ number reason
  | .permissionDenied _ number reason
  | .resourceExhausted _ number reason
  | .inappropriateType _ number reason
  | .noSuchThing _ number reason
  | .otherError number reason
  | .resourceBusy number reason
  | .resourceVanished number reason
  | .unsupportedOperation number reason
  | .hardwareFault number reason
  | .unsatisfiedConstraints number reason
  | .illegalOperation number reason
  | .protocolError number reason
  | .timeExpired number reason => .system reason number.toNat
  | .unexpectedEof => .system "unexpected end of file" 0
  | .userError reason => .system reason 0

/-- Reads the text at a path. -/
def readFile (path : String) : IO (Except FileFault String) := do
  try
    let handle ← IO.FS.Handle.mk path .read
    match String.fromUTF8? (← handle.readBinToEnd) with
    | some text => return .ok text
    | none => return .error .notText
  catch error => return .error (.ofError error)

/-- Writes lines to the file at a path, up to the first fault. -/
def writeFile (path : String) (lines : List String) : IO (Option FileFault) := do
  try
    let handle ← IO.FS.Handle.mk path .write
    for line in lines do
      handle.putStr (line ++ Source.lineBreak)
    handle.flush
    return none
  catch error => return some (.ofError error)

/-- Prints the log records up to a level, with the local time in front. -/
def printLog (level : Level) (records : List Record) : IO Unit := do
  for record in records.filter (·.isKept (some level)) do
    let now ← Std.Time.PlainDateTime.now
    IO.eprintln (now.format "'['uuuu-MM-dd']''['HH:mm:ss']'" ++ record.text)

/-- Runs a session on the file system.  Standard output comes before the file. -/
def runSession (options : Options) : IO UInt32 := do
  let plan := options.plan (← readFile options.input)
  printLog options.level plan.records
  IO.print plan.stdout
  match plan.output with
  | none => return plan.status.toUInt32
  | some (path, lines) =>
    match ← writeFile path lines with
    | none => return plan.status.toUInt32
    | some fault =>
      printLog options.level [unwritten path fault]
      return (plan.withoutOutput path fault).status.toUInt32

end Pom8.CommandLine

open Pom8.CommandLine in
/-- Assembles the file that the arguments name. -/
def main (arguments : List String) : IO UInt32 := do
  match Options.ofArguments arguments with
  | .ok options => runSession options
  | .error interruption =>
    let outcome := interruption.outcome ()
    IO.print outcome.stdout
    for line in outcome.stderr do
      IO.eprintln line
    return outcome.status.toUInt32
