import Pom8.Mnemonic
import Pom8.Token

/-!
# Operand slots

A layout is the list of slots that the operands of a statement fill, in order.
-/

namespace Pom8

/-- The places that operands take in a statement. -/
inductive Slot where
  | register
  | numeric
  | target
  deriving DecidableEq, Repr

namespace Slot

/-- Whether a slot takes tokens of a kind. -/
def accepts : Slot → Token.Kind → Bool
  | register, kind => kind == .register
  | numeric, kind => kind.isNumeric
  | target, kind => kind == .mnemonic || kind == .hexadecimal

/-- The kinds that a slot takes, as messages name them. -/
def name : Slot → String
  | register => "REGISTER"
  | numeric => "DECIMAL/HEXADECIMAL/BINARY"
  | target => "MNEMONIC/HEXADECIMAL"

end Slot

/-- The slots of a statement's operands, in order. -/
abbrev Layout := List Slot

/-- The layouts that a mnemonic allows.  Where there are two, they part at the
second operand, and the longer one comes last. -/
def Mnemonic.layouts (mnemonic : Mnemonic) : List Layout :=
  if mnemonic.isNullary then [[]]
  else
    match mnemonic.format with
    | .branch => [[.target]]
    | .immediate =>
      if mnemonic.isStack then [[.register]]
      else [[.register, .numeric], [.register, .register, .numeric]]
    | .register =>
      if mnemonic.isTwoRegister then [[.register, .register]]
      else [[.register, .register, .register]]

/-- What a statement can call for next. -/
inductive Expectation where
  | mnemonic
  | operand (slot : Slot)
  | endOfLine
  deriving DecidableEq, Repr

/-- How messages name what was called for. -/
def Expectation.name : Expectation → String
  | mnemonic => Token.Kind.mnemonic.name
  | operand slot => slot.name
  | endOfLine => "end of line"

end Pom8
