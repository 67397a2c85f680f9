import Pom8.CommandLine.FileSystem
import Pom8.CommandLine.Options
import Pom8.Listing

/-!
# Sessions of the command line

A session reads its input, assembles it, and leaves an exit status, text on
standard output, a log, and at most one file.  `Plan` holds all that follows
from the input alone; only a fault in writing the file can change it.  Standard
output and the log take whatever is written to them.
-/

namespace Pom8.CommandLine

/-- What a session will do once its input is known. -/
structure Plan where
  /-- The log, at all levels. -/
  records : List Record
  /-- The text for standard output. -/
  stdout : String := ""
  /-- The path and the lines of the file to write. -/
  output : Option (String × List String) := none
  /-- The exit status. -/
  status : Nat := 0
  deriving DecidableEq, Repr

/-- A log record of the program as a whole. -/
def report (level : Level) (message : String) : Record :=
  ⟨.program, level, message⟩

namespace Options

/-- The level up to which the log is shown. -/
def level (options : Options) : Level :=
  Level.ofVerbosity options.verbosity

/-- The record of the options themselves. -/
def record (options : Options) : Record :=
  report .debug
    ("Arguments:\n\tVerbosity: " ++ options.level.name ++
      "\n\tPrint Debug: " ++ (if options.listing then "true" else "false") ++
      "\n\tOutfile: " ++ options.output.getD "None" ++
      "\n\tInfile: " ++ options.input)

/-- The records of a finished assembly: whether it is empty, and its labels. -/
def summary (options : Options) (assembly : Assembly) : List Record :=
  let emptiness :=
    if assembly.program.isEmpty then
      [report .warn s!"`{options.input}` contains no instructions."]
    else []
  let labels :=
    if assembly.symbols.size = 0 then []
    else
      report .info s!"{assembly.symbols.size} label(s) defined:" ::
        assembly.symbols.sorted.map fun symbol =>
          report .info
            s!"\t{symbol.name} => 0x{Numeral.hex 4 symbol.address} (line {symbol.line})"
  emptiness ++ labels

/-- The listing of an assembly, if it was asked for. -/
def listingText (options : Options) (assembly : Assembly) : String :=
  if options.listing then assembly.listing else ""

/-- What a session does, given the text of its input or the fault that kept it
from being read.  Machine code goes to the output file or, without one, after
the listing. -/
def plan (options : Options) (content : Except FileFault String) : Plan :=
  match content with
  | .error fault =>
    { records :=
        [options.record,
          report .error
            s!"fatal: unable to read input file `{options.input}`: {fault.message}"]
      status := 1 }
  | .ok source =>
    let course := Report.ofSource source
    let records := options.record :: course.events.toList.map Event.record
    match course.outcome with
    | .error fault =>
      { records := records ++
          [report .error fault.message,
            report .error
              s!"Stopped assembly of `{options.input}` at line {fault.line}."]
        status := 1 }
    | .ok assembly =>
      let listing := options.listingText assembly
      let records := records ++ options.summary assembly
      match options.output with
      | none =>
        { records := records, stdout := listing ++ assembly.machineCode }
      | some path =>
        { records := records
          stdout := listing
          output := some (path, assembly.words.map Word.text) }

end Options

/-- The record of an output file that was not written. -/
def unwritten (path : String) (fault : FileFault) : Record :=
  report .error s!"fatal: unable to write to output file `{path}`: {fault.message}"

namespace Plan

/-- The plan of a session whose output file was not written. -/
def withoutOutput (plan : Plan) (path : String) (fault : FileFault) : Plan :=
  { plan with
    records := plan.records ++ [unwritten path fault]
    output := none
    status := 1 }

/-- The records of a plan's log up to some level. -/
def log (plan : Plan) (level : Level) : List Record :=
  plan.records.filter (·.isKept (some level))

/-- The lines of a plan's log up to some level. -/
def logLines (plan : Plan) (level : Level) : List String :=
  (plan.log level).flatMap Record.lines

end Plan

/-- What a session leaves behind. -/
structure Outcome (Disk : Type) where
  status : Nat
  stdout : String
  /-- The lines on standard error. -/
  stderr : List String
  disk : Disk

/-- The version line. -/
def version : String := "pom8asm 0.1.0\n"

/-- The help text. -/
def help : String :=
  version ++
    "Nicolas 'Montessquio' Suarez <nsuarez@kernelstack.net>\n" ++
    "An assembler for the POM8 educational CPU (pom8asm).\n" ++
    "\n" ++
    "USAGE:\n" ++
    "    pom8asm [FLAGS] [OPTIONS] <INPUT>\n" ++
    "\n" ++
    "FLAGS:\n" ++
    "    -h, --help       Prints help information\n" ++
    "    -d               prints the debug information alongside the assembly to STDOUT\n" ++
    "    -V, --version    Prints version information\n" ++
    "    -v               Sets the level of verbosity\n" ++
    "\n" ++
    "OPTIONS:\n" ++
    "    -o, --output <output>    write machine code to an outfile instead of STDOUT\n" ++
    "\n" ++
    "ARGS:\n" ++
    "    <INPUT>    Sets the input assembly (.asm) file to use\n"

section Outcomes

variable {Disk : Type}

/-- The outcome when arguments ask for no session. -/
def Interruption.outcome (disk : Disk) : Interruption → Outcome Disk
  | help => ⟨0, CommandLine.help, [], disk⟩
  | version => ⟨0, CommandLine.version, [], disk⟩
  | refused refusal => ⟨1, "", [refusal.headline], disk⟩

variable [FileSystem Disk]

/-- A plan after it has been carried out, and the disk that it leaves. -/
def Plan.settle (plan : Plan) (disk : Disk) : Plan × Disk :=
  match plan.output with
  | none => (plan, disk)
  | some (path, lines) =>
    match FileSystem.writeLines disk path lines with
    | (none, written) => (plan, written)
    | (some fault, written) => (plan.withoutOutput path fault, written)

/-- What the session of some options comes to, and the disk that it leaves. -/
def Options.session (options : Options) (disk : Disk) : Plan × Disk :=
  (options.plan (FileSystem.readText disk options.input)).settle disk

/-- Runs the program with some arguments on a disk. -/
def invoke (arguments : List String) (disk : Disk) : Outcome Disk :=
  match Options.ofArguments arguments with
  | .error interruption => interruption.outcome disk
  | .ok options =>
    let (plan, disk) := options.session disk
    ⟨plan.status, plan.stdout, plan.logLines options.level, disk⟩

end Outcomes
end Pom8.CommandLine
