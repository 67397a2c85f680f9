import Pom8.Text.Character

/-!
# The instruction set

Each mnemonic has a format, which fixes the fields of its words, and an opcode
that is unique within the formats that share the opcode field.
-/

namespace Pom8

/-- The field layouts of machine words. -/
inductive Format where
  | register
  | branch
  | immediate
  deriving DecidableEq, Repr

/-- The name of a format in messages. -/
def Format.name : Format → String
  | register => "REGISTER"
  | branch => "BRANCH"
  | immediate => "IMMEDIATE"

/-- The operations of the machine. -/
inductive Mnemonic where
  | add | sub | and | or | not | xor | lsl | lsr | addc | subc
  | setc | clrc | setv | clrv | mov | ijmp | inc
  | nop | call | ret | jmp | brz | brn | brp | brc | brv | hlt
  | addi | subi | andi | ori | xori | ldi | lda | ldo | sta | push | pop
  deriving DecidableEq, Repr

namespace Mnemonic

/-- All mnemonics, by format and opcode. -/
def all : List Mnemonic :=
  [add, sub, and, or, not, xor, lsl, lsr, addc, subc,
    setc, clrc, setv, clrv, mov, ijmp, inc,
    nop, call, ret, jmp, brz, brn, brp, brc, brv, hlt,
    addi, subi, andi, ori, xori, ldi, lda, ldo, sta, push, pop]

/-- The name of a mnemonic, in upper case. -/
def name : Mnemonic → String
  | add => "ADD" | sub => "SUB" | and => "AND" | or => "OR" | not => "NOT"
  | xor => "XOR" | lsl => "LSL" | lsr => "LSR" | addc => "ADDC"
  | subc => "SUBC" | setc => "SETC" | clrc => "CLRC" | setv => "SETV"
  | clrv => "CLRV" | mov => "MOV" | ijmp => "IJMP" | inc => "INC"
  | nop => "NOP" | call => "CALL" | ret => "RET" | jmp => "JMP"
  | brz => "BRZ" | brn => "BRN" | brp => "BRP" | brc => "BRC" | brv => "BRV"
  | hlt => "HLT"
  | addi => "ADDI" | subi => "SUBI" | andi => "ANDI" | ori => "ORI"
  | xori => "XORI" | ldi => "LDI" | lda => "LDA" | ldo => "LDO"
  | sta => "STA" | push => "PUSH" | pop => "POP"

/-- The format of a mnemonic's words. -/
def format : Mnemonic → Format
  | add | sub | and | or | not | xor | lsl | lsr | addc | subc
  | setc | clrc | setv | clrv | mov | ijmp | inc => .register
  | nop | call | ret | jmp | brz | brn | brp | brc | brv | hlt => .branch
  | addi | subi | andi | ori | xori | ldi | lda | ldo | sta | push | pop =>
    .immediate

/-- The opcode of a mnemonic.  Branch and immediate words share one opcode
field; register words have a field of their own. -/
def code : Mnemonic → Nat
  | add => 0 | sub => 1 | and => 2 | or => 3 | not => 4 | xor => 5
  | lsl => 6 | lsr => 7 | addc => 8 | subc => 9 | setc => 10 | clrc => 11
  | setv => 12 | clrv => 13 | mov => 14 | ijmp => 15 | inc => 16
  | nop => 1 | call => 2 | ret => 3 | jmp => 4 | brz => 5 | brn => 6
  | brp => 7 | brc => 8 | brv => 9 | hlt => 10
  | addi => 11 | subi => 12 | andi => 13 | ori => 14 | xori => 15
  | ldi => 16 | lda => 17 | ldo => 18 | sta => 19 | push => 20 | pop => 21

/-- Whether a mnemonic stands without operands. -/
def isNullary : Mnemonic → Bool
  | nop | hlt | ret | setc | clrc | setv | clrv => true
  | _ => false

/-- Whether a mnemonic of register format names two registers, not three. -/
def isTwoRegister : Mnemonic → Bool
  | lsl | lsr | mov | ijmp => true
  | _ => false

/-- Whether a mnemonic moves one register to or from the stack. -/
def isStack : Mnemonic → Bool
  | push | pop => true
  | _ => false

/-- Whether a mnemonic reads its first register and writes none. -/
def isStore : Mnemonic → Bool
  | sta | push => true
  | _ => false

/-- The mnemonic that a text names in any mixture of cases. -/
def ofText? (text : String) : Option Mnemonic :=
  let wanted := Text.upper text
  all.find? fun mnemonic => mnemonic.name == wanted

end Mnemonic
end Pom8
