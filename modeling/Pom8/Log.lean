import Pom8.Instruction

/-!
# Logs

A run leaves a list of events.  Each event has a level, a part of the program
that reports it, and a message; a log keeps the events up to some level.
-/

namespace Pom8

/-- The levels of log records, the gravest first. -/
inductive Level where
  | error
  | warn
  | info
  | debug
  | trace
  deriving DecidableEq, Repr

namespace Level

/-- The place of a level, counted from the gravest. -/
def rank : Level → Nat
  | error => 0
  | warn => 1
  | info => 2
  | debug => 3
  | trace => 4

/-- The name of a level in logs. -/
def name : Level → String
  | error => "ERROR"
  | warn => "WARN"
  | info => "INFO"
  | debug => "DEBUG"
  | trace => "TRACE"

/-- The level that a number of requests for more detail asks for. -/
def ofVerbosity : Nat → Level
  | 0 => error
  | 1 => warn
  | 2 => info
  | 3 => debug
  | _ => trace

end Level

/-- The parts of the program that report. -/
inductive Origin where
  | program
  | assembly
  | scan
  | draft
  deriving DecidableEq, Repr

/-- The name of a part of the program in logs. -/
def Origin.name : Origin → String
  | program => "pom8asm"
  | assembly => "pom8asm::assembler"
  | scan => "pom8asm::assembler::lexer"
  | draft => "pom8asm::assembler::parser"

/-- A line of a log. -/
structure Record where
  origin : Origin
  level : Level
  message : String
  deriving DecidableEq, Repr

namespace Record

/-- Whether a record is kept by a log that goes up to some level; a log that is
switched off keeps none. -/
def isKept (limit : Option Level) (record : Record) : Bool :=
  match limit with
  | none => false
  | some level => record.level.rank ≤ level.rank

/-- A record as text: where it comes from, its level, and its message. -/
def text (record : Record) : String :=
  "[" ++ record.origin.name ++ "][" ++ record.level.name ++ "] " ++
    record.message

/-- The lines in which a record is shown. -/
def lines (record : Record) : List String :=
  (record.text.toList.splitOnP (· == '\n')).map String.ofList

end Record

/-- What happens in the course of an assembly. -/
inductive Event where
  | labelDefined (line : Nat) (name : String) (address : Nat)
  | tokenRead (token : Token)
  | scanned (instructions labels : Nat)
  | operandRead (line : Nat) (operand : Operand)
  | instructionRead (instruction : Instruction)
  | assembled (instructions : Nat)
  deriving DecidableEq, Repr

namespace Event

/-- The part of the program that reports an event. -/
def origin : Event → Origin
  | labelDefined .. | tokenRead _ | scanned .. => .scan
  | operandRead .. | instructionRead _ => .draft
  | assembled _ => .assembly

/-- The level of an event. -/
def level : Event → Level
  | labelDefined .. | assembled _ => .info
  | scanned .. | instructionRead _ => .debug
  | tokenRead _ | operandRead .. => .trace

/-- The message of an event. -/
def message : Event → String
  | labelDefined line name address =>
    s!"Line {line}: label ({name}) created for address 0x{Numeral.hex 1 address}"
  | tokenRead token => s!"Line {token.line}: {token.display}"
  | scanned instructions labels =>
    s!"Tokenised {instructions} instruction(s), {labels} label(s)."
  | operandRead line operand => s!"Line {line}: created {operand.describe}"
  | instructionRead instruction =>
    s!"Line {instruction.line}: parsed {instruction.format.name} instruction `{instruction.text}`"
  | assembled instructions => s!"Assembled {instructions} instruction(s)."

/-- The log record of an event. -/
def record (event : Event) : Record where
  origin := event.origin
  level := event.level
  message := event.message

end Event
end Pom8
