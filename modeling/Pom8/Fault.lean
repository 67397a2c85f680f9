import Pom8.Slot

/-!
# Faults of a source text

A fault is the first reason for which a source is refused.  It names a line
and the text at which reading stopped.
-/

namespace Pom8

/-- The reasons for which a source is refused. -/
inductive Fault where
  /-- An item has the shape of no token. -/
  | unrecognised (line : Nat) (text : String)
  /-- A label is defined a second time; `first` is the line that defined it. -/
  | duplicateLabel (line : Nat) (label : String) (first : Nat)
  /-- A statement starts with a name that is no mnemonic. -/
  | unknownMnemonic (line : Nat) (name : String)
  /-- A token stands where another was called for; the input may also end
  there. -/
  | unexpected (line : Nat) (expected : Expectation) (found : Option Token)
  /-- A register number or a literal lies outside its range. -/
  | outOfRange (line : Nat) (text : String) (kind : Token.Kind)
  /-- An operand names a label that the source does not define. -/
  | undefinedLabel (line : Nat) (label : String)
  deriving DecidableEq, Repr

namespace Fault

/-- The line on which a fault lies. -/
def line : Fault → Nat
  | unrecognised line _ => line
  | duplicateLabel line _ _ => line
  | unknownMnemonic line _ => line
  | unexpected line _ _ => line
  | outOfRange line _ _ => line
  | undefinedLabel line _ => line

/-- How messages name what was found: a token, or the end of the input. -/
def foundName : Option Token → String
  | some token => token.display
  | none => "end of input"

/-- What is wrong, without the line. -/
def reason : Fault → String
  | unrecognised _ text => s!"'{text}' could not be tokenised, not recognised"
  | duplicateLabel _ label first =>
    s!"'{label}' label already exists (first defined on line {first})"
  | unknownMnemonic _ name => s!"unknown opcode '{name}'"
  | unexpected _ expected found =>
    s!"expected {expected.name}, got {foundName found}"
  | outOfRange _ text kind =>
    s!"invalid value {text} for operand of type {kind.name}"
  | undefinedLabel _ label => s!"label '{label}' is not defined"

/-- The message of a fault, which starts with its line. -/
def message (fault : Fault) : String :=
  s!"line {fault.line}: {fault.reason}"

end Fault

/-- The token of a lexeme, or the fault of a text without a kind. -/
def Token.ofLexeme (lexeme : Lexeme) : Except Fault Token :=
  match Token.ofLexeme? lexeme with
  | some token => .ok token
  | none => .error (.unrecognised lexeme.line lexeme.text)

end Pom8
