import Pom8.Draft
import Pom8.Scan
import Pom8.Word

/-!
# Assembling a source

A source is scanned as a whole before its statements are read, so a fault in
the shape of an item, or a label defined twice, is found before any fault in a
statement.
-/

namespace Pom8

/-- A program with its symbols and its machine words, one for each
instruction. -/
structure Assembly where
  program : List Instruction
  symbols : SymbolTable
  words : List Word
  deriving DecidableEq, Repr

/-- The course of an assembly: what happened, and what came of it. -/
structure Report where
  events : Array Event
  outcome : Except Fault Assembly

namespace Report

/-- Assembles the tokens and symbols of a scanned source. -/
def ofScan (scan : Scan) : Report :=
  let events := scan.events.push (.scanned scan.address scan.symbols.size)
  match Draft.ofTokens scan.symbols scan.tokens.toList with
  | .halted draft fault => ⟨events ++ draft.events, .error fault⟩
  | .running draft =>
    let program := draft.instructions.toList
    ⟨(events ++ draft.events).push (.assembled program.length),
      .ok ⟨program, scan.symbols, Word.ofProgram scan.symbols program⟩⟩

/-- Assembles a source. -/
def ofSource (source : String) : Report :=
  match Scan.ofSource source with
  | .halted scan fault => ⟨scan.events, .error fault⟩
  | .running scan => ofScan scan

/-- The log of an assembly up to some level. -/
def log (limit : Option Level) (report : Report) : List Record :=
  (report.events.toList.map Event.record).filter (·.isKept limit)

end Report

/-- The assembly of a source, or the first fault in it. -/
def assemble (source : String) : Except Fault Assembly :=
  (Report.ofSource source).outcome

end Pom8
