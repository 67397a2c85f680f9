import Pom8.Instruction

/-!
# Statements

A statement is read token by token.  It keeps the layouts of its mnemonic that
the operands read so far can still grow into, each without the slots that are
already filled.
-/

namespace Pom8

/-- What is left of a layout after a token of some kind, if its first slot takes
such tokens. -/
def Layout.after? (kind : Token.Kind) : Layout → Option Layout
  | slot :: rest => if slot.accepts kind then some rest else none
  | [] => none

/-- A statement under way. -/
structure Statement where
  mnemonic : Mnemonic
  /-- The line of the mnemonic. -/
  line : Nat
  /-- The line of the last token read. -/
  lastLine : Nat
  /-- The operands read. -/
  operands : List Operand
  /-- The slots still open, one list for each layout that fits. -/
  layouts : List Layout
  deriving DecidableEq, Repr

namespace Statement

/-- Starts a statement with its mnemonic. -/
def start (token : Token) : Except Fault Statement :=
  match token.kind with
  | .mnemonic =>
    match Mnemonic.ofText? token.text with
    | some mnemonic =>
      .ok ⟨mnemonic, token.line, token.line, [], mnemonic.layouts⟩
    | none => .error (.unknownMnemonic token.line (Text.upper token.text))
  | _ => .error (.unexpected token.line .mnemonic (some token))

/-- Whether the statement can end here. -/
def isComplete (statement : Statement) : Bool :=
  statement.layouts.contains []

/-- What the statement calls for next; of several layouts the last decides. -/
def expectation (statement : Statement) : Expectation :=
  match statement.layouts.getLast? with
  | some (slot :: _) => .operand slot
  | _ => .endOfLine

/-- The fault of an operand that cannot be used, by the token that writes it. -/
def invalidOperand (token : Token) : Operand → Fault
  | .label _ => .undefinedLabel token.line token.text
  | _ => .outOfRange token.line token.text token.kind

/-- Takes a token as the next operand, which is returned with the statement
grown by it. -/
def take (symbols : SymbolTable) (statement : Statement) (token : Token) :
    Except Fault (Operand × Statement) :=
  match Operand.ofToken? token,
      statement.layouts.filterMap (Layout.after? token.kind) with
  | some operand, layout :: layouts =>
    if operand.isValid symbols then
      .ok (operand,
        { statement with
          lastLine := token.line
          operands := statement.operands ++ [operand]
          layouts := layout :: layouts })
    else .error (invalidOperand token operand)
  | _, _ =>
    .error (.unexpected token.line statement.expectation (some token))

/-- The instruction of a complete statement. -/
def instruction (statement : Statement) : Instruction where
  mnemonic := statement.mnemonic
  operands := statement.operands
  line := statement.line

end Statement
end Pom8
