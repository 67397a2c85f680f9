/-!
# Numerals in base two, ten and sixteen

Reading gives the value of a list of digits of any length; writing gives the
shortest numeral, padded with zeros to a least width.
-/

namespace Pom8.Numeral

/-- Whether a character is a binary digit. -/
def isBinaryDigit (c : Char) : Bool :=
  c == '0' || c == '1'

/-- Whether a character is a hexadecimal digit, in either case. -/
def isHexDigit (c : Char) : Bool :=
  c.isDigit || ('a' ≤ c && c ≤ 'f') || ('A' ≤ c && c ≤ 'F')

/-- The value of a digit, in either case; other characters count as zero. -/
def digitValue (c : Char) : Nat :=
  if c.isDigit then c.toNat - '0'.toNat
  else if 'a' ≤ c ∧ c ≤ 'f' then c.toNat - 'a'.toNat + 10
  else if 'A' ≤ c ∧ c ≤ 'F' then c.toNat - 'A'.toNat + 10
  else 0

/-- The number that a list of digits writes in the given base. -/
def value (base : Nat) (digits : List Char) : Nat :=
  digits.foldl (fun n c => n * base + digitValue c) 0

/-- The shortest numeral of a number in the given base, with zeros in front up to
the given width; digits above nine are lower-case letters. -/
def digits (base width n : Nat) : List Char :=
  (Nat.toDigits base n).leftpad width '0'

/-- The decimal numeral of a natural number. -/
def decimal (n : Nat) : String :=
  String.ofList (digits 10 1 n)

/-- The decimal numeral of an integer, with a minus sign below zero. -/
def signedDecimal : Int → String
  | .ofNat n => decimal n
  | .negSucc n => "-" ++ decimal (n + 1)

/-- The binary numeral of a natural number. -/
def binary (n : Nat) : String :=
  String.ofList (digits 2 1 n)

/-- The hexadecimal numeral of at least the given width, in lower case. -/
def hex (width n : Nat) : String :=
  String.ofList (digits 16 width n)

/-- The hexadecimal numeral of at least the given width, in upper case. -/
def upperHex (width n : Nat) : String :=
  String.ofList ((digits 16 width n).map Char.toUpper)

end Pom8.Numeral
