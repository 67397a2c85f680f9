import Pom8.Instruction

/-!
# Machine words

An instruction takes one word of 32 bits.  Its format lays the word out, from
the most significant bit down:

* register: 14 zeros, three registers of 4 bits, an opcode of 6 bits;
* branch: 8 zeros, an opcode of 6 bits, 2 zeros, an address of 16 bits;
* immediate: 8 zeros, an opcode of 6 bits, two registers of 4 bits, a value of
  10 bits.

A number that is too large for its field keeps its low bits.
-/

namespace Pom8

/-- A machine word. -/
abbrev Word := BitVec 32

/-- The bits of a word, most significant first. -/
def Word.text (word : Word) : String :=
  String.ofList ((List.range 32).map fun i =>
    if word.getMsbD i then '1' else '0')

namespace Operand

/-- The number of a register operand. -/
def register? : Operand → Option Nat
  | register index => some index
  | _ => none

/-- The value of a literal operand. -/
def value? : Operand → Option Int
  | immediate value _ => some value
  | _ => none

end Operand

namespace Instruction

/-- The field of the register at a position of the operands, zero if there is
no register at it. -/
def registerField (instruction : Instruction) (position : Nat) : BitVec 4 :=
  BitVec.ofNat 4
    ((instruction.operands[position]?.bind Operand.register?).getD 0)

/-- The field of the last literal among the operands, zero without one. -/
def valueField (instruction : Instruction) : BitVec 10 :=
  BitVec.ofInt 10
    ((instruction.operands.filterMap Operand.value?).getLast?.getD 0)

/-- The field of the first operand as an address, zero if it gives none. -/
def addressField (symbols : SymbolTable) (instruction : Instruction) :
    BitVec 16 :=
  match instruction.operands.head? with
  | some (.label name) => BitVec.ofNat 16 ((symbols.address? name).getD 0)
  | some (.immediate value _) => BitVec.ofInt 16 value
  | _ => 0

/-- The opcode field. -/
def codeField (instruction : Instruction) : BitVec 6 :=
  BitVec.ofNat 6 instruction.mnemonic.code

/-- The word of register format.  An indirect jump leaves the first field
empty. -/
def registerWord (instruction : Instruction) : Word :=
  let field := instruction.registerField
  let registers : BitVec 12 :=
    if instruction.mnemonic = .ijmp then 0#4 ++ field 0 ++ field 1
    else field 0 ++ field 1 ++ field 2
  0#14 ++ registers ++ instruction.codeField

/-- The word of branch format. -/
def branchWord (symbols : SymbolTable) (instruction : Instruction) : Word :=
  0#8 ++ instruction.codeField ++ 0#2 ++ instruction.addressField symbols

/-- The word of immediate format.  A store leaves the first field empty. -/
def immediateWord (instruction : Instruction) : Word :=
  let field := instruction.registerField
  let registers : BitVec 8 :=
    if instruction.mnemonic.isStore then 0#4 ++ field 0 else field 0 ++ field 1
  0#8 ++ instruction.codeField ++ registers ++ instruction.valueField

/-- The word of an instruction, laid out by its format. -/
def encode (symbols : SymbolTable) (instruction : Instruction) : Word :=
  match instruction.format with
  | .register => instruction.registerWord
  | .branch => instruction.branchWord symbols
  | .immediate => instruction.immediateWord

end Instruction

/-- The words of a program, one for each instruction. -/
def Word.ofProgram (symbols : SymbolTable) (program : List Instruction) :
    List Word :=
  program.map (·.encode symbols)

end Pom8
