/-!
# Character classes of assembly text

Two classes reach beyond ASCII: blanks are the characters that Unicode calls
white space, and letters include the two characters outside ASCII whose simple
case folding is an ASCII letter.  Changing case touches ASCII letters only.
-/

namespace Pom8.Text

/-- The ranges of code points, both ends included, that Unicode lists as white
space. -/
def blankRanges : List (Nat × Nat) :=
  [(0x0009, 0x000D), (0x0020, 0x0020), (0x0085, 0x0085), (0x00A0, 0x00A0),
    (0x1680, 0x1680), (0x2000, 0x200A), (0x2028, 0x2029), (0x202F, 0x202F),
    (0x205F, 0x205F), (0x3000, 0x3000)]

/-- Whether a character is white space. -/
def isBlank (c : Char) : Bool :=
  blankRanges.any fun range => range.1 ≤ c.toNat && c.toNat ≤ range.2

/-- Whether a character stands between two items: a blank or a comma. -/
def isSeparator (c : Char) : Bool :=
  c == ',' || isBlank c

/-- Whether a character can start a name: an ASCII letter, the long s, or the
Kelvin sign. -/
def isLetter (c : Char) : Bool :=
  c.isAlpha || c == '\u017F' || c == '\u212A'

/-- Whether a character can continue a name. -/
def isNameCharacter (c : Char) : Bool :=
  isLetter c || c.isDigit

/-- The text with its ASCII letters in lower case. -/
def lower (text : String) : String :=
  text.map Char.toLower

/-- The text with its ASCII letters in upper case. -/
def upper (text : String) : String :=
  text.map Char.toUpper

end Pom8.Text
