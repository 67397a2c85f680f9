import Pom8.Operand

/-!
# Instructions
-/

namespace Pom8

/-- An instruction: a mnemonic with its operands, the format of its word, and
the line it was read from. -/
structure Instruction where
  mnemonic : Mnemonic
  operands : List Operand
  format : Format := mnemonic.format
  line : Nat := 0
  deriving DecidableEq, Repr

namespace Instruction

/-- An instruction as it is written in a source. -/
def text (instruction : Instruction) : String :=
  match instruction.operands with
  | [] => instruction.mnemonic.name
  | operands =>
    instruction.mnemonic.name ++ " " ++
      ", ".intercalate (operands.map Operand.text)

end Instruction
end Pom8
