import Pom8.SymbolTable

/-!
# Operands

An operand is a register, a literal with the base it was written in, or the
name of a label.
-/

namespace Pom8

/-- The bases of literals. -/
inductive Radix where
  | decimal
  | hexadecimal
  | binary
  deriving DecidableEq, Repr

namespace Radix

/-- The name of a base in log records. -/
def name : Radix → String
  | decimal => "Decimal"
  | hexadecimal => "Hexadecimal"
  | binary => "Binary"

/-- The least value of a literal in a base. -/
def least : Radix → Int
  | decimal => -128
  | hexadecimal | binary => 0

/-- The greatest value of a literal in a base. -/
def greatest : Radix → Int
  | hexadecimal => 0x3FF
  | decimal | binary => 255

end Radix

/-- The operands of an instruction. -/
inductive Operand where
  | register (index : Nat)
  | immediate (value : Int) (radix : Radix)
  | label (name : String)
  deriving DecidableEq, Repr

/-- The number whose binary digits are the 64-bit two's complement of a value. -/
def bitPattern (value : Int) : Nat :=
  (BitVec.ofInt 64 value).toNat

namespace Operand

/-- Whether an operand can be used: its number lies in range, or its label is
defined. -/
def isValid (symbols : SymbolTable) : Operand → Bool
  | register index => index ≤ 15
  | immediate value radix => radix.least ≤ value && value ≤ radix.greatest
  | label name => symbols.contains name

/-- An operand as it is written in a source.  Hexadecimal literals have at
least three digits; below zero, hexadecimal and binary literals show the bit
pattern. -/
def text : Operand → String
  | register index => "r" ++ Numeral.decimal index
  | immediate value .decimal => Numeral.signedDecimal value
  | immediate value .hexadecimal => "0x" ++ Numeral.upperHex 3 (bitPattern value)
  | immediate value .binary => "0b" ++ Numeral.binary (bitPattern value)
  | label name => name

/-- An operand as log records show it. -/
def describe : Operand → String
  | register index => s!"Register({index})"
  | immediate value radix =>
    "Immediate \x7b value: " ++ Numeral.signedDecimal value ++
      ", radix: " ++ radix.name ++ " \x7d"
  | label name => s!"Label(\"{name}\")"

/-- The operand that a token writes; line breaks, comments and label
definitions write none. -/
def ofToken? (token : Token) : Option Operand :=
  let characters := token.text.toList
  match token.kind with
  | .register => some (register (Numeral.value 10 (characters.drop 1)))
  | .decimal =>
    match characters with
    | '-' :: digits => some (immediate (-Numeral.value 10 digits) .decimal)
    | digits => some (immediate (Numeral.value 10 digits) .decimal)
  | .hexadecimal =>
    some (immediate (Numeral.value 16 (characters.drop 2)) .hexadecimal)
  | .binary => some (immediate (Numeral.value 2 (characters.drop 2)) .binary)
  | .mnemonic => some (label token.text)
  | .label | .comment | .newline => none

end Operand
end Pom8
