import Pom8.Log
import Pom8.Progress
import Pom8.Statement

/-!
# Drafts of programs

A draft grows into a program token by token.  A line break ends the statement
under way, and so does the end of the tokens.
-/

namespace Pom8

/-- A program being read. -/
structure Draft where
  /-- The instructions read. -/
  instructions : Array Instruction := #[]
  /-- The statement under way, if a line has begun. -/
  statement : Option Statement := none
  /-- What has happened. -/
  events : Array Event := #[]
  deriving DecidableEq, Repr

namespace Draft

/-- Ends the statement under way. -/
def close (draft : Draft) (statement : Statement) : Draft where
  instructions := draft.instructions.push statement.instruction
  statement := none
  events := draft.events.push (.instructionRead statement.instruction)

/-- Reads one token. -/
def step (symbols : SymbolTable) (draft : Draft) (token : Token) :
    Progress Fault Draft :=
  match draft.statement with
  | none =>
    match Statement.start token with
    | .error fault => .halted draft fault
    | .ok statement => .running { draft with statement := some statement }
  | some statement =>
    if token.kind = .newline ∧ statement.isComplete then
      .running (draft.close statement)
    else
      match statement.take symbols token with
      | .error fault => .halted draft fault
      | .ok (operand, grown) =>
        .running { draft with
          statement := some grown
          events := draft.events.push (.operandRead token.line operand) }

/-- Ends the draft with its tokens. -/
def finish (draft : Draft) : Progress Fault Draft :=
  match draft.statement with
  | none => .running draft
  | some statement =>
    if statement.isComplete then .running (draft.close statement)
    else
      .halted draft
        (.unexpected statement.lastLine statement.expectation none)

/-- Reads a list of tokens. -/
def ofTokens (symbols : SymbolTable) (tokens : List Token) :
    Progress Fault Draft :=
  (Progress.run (step symbols) {} tokens).andThen finish

end Draft
end Pom8
