import Pom8.Source
import Pom8.Text.Numeral

/-!
# Tokens

A token is a lexeme whose text has the shape of some kind.  A text takes the
first kind of `Kind.order` that admits it; apart from registers, whose shape is
also that of a name, no text is admitted by two kinds.
-/

namespace Pom8
namespace Token

/-- The kinds of tokens. -/
inductive Kind where
  | register
  | mnemonic
  | hexadecimal
  | decimal
  | binary
  | label
  | comment
  | newline
  deriving DecidableEq, Repr

namespace Kind

/-- The name of a kind in messages. -/
def name : Kind → String
  | register => "REGISTER"
  | mnemonic => "MNEMONIC"
  | hexadecimal => "HEXADECIMAL"
  | decimal => "DECIMAL"
  | binary => "BINARY"
  | label => "LABEL"
  | comment => "COMMENT"
  | newline => "NEWLINE"

/-- Whether tokens of a kind write a number. -/
def isNumeric : Kind → Bool
  | hexadecimal | decimal | binary => true
  | _ => false

end Kind

/-- Whether a text is a nonempty run of characters of one class. -/
def isRunOf (isMember : Char → Bool) (text : List Char) : Bool :=
  !text.isEmpty && text.all isMember

/-- Whether a text is a letter followed by letters and digits. -/
def isName : List Char → Bool
  | [] => false
  | c :: rest => Text.isLetter c && rest.all Text.isNameCharacter

/-- Whether a text is a name followed by a colon. -/
def isLabel (text : List Char) : Bool :=
  text.getLast? == some ':' && isName text.dropLast

/-- Whether a text is an `r`, in either case, followed by decimal digits. -/
def isRegister : List Char → Bool
  | c :: digits => (c == 'r' || c == 'R') && isRunOf Char.isDigit digits
  | [] => false

/-- Whether a text is `0x`, in either case, followed by hexadecimal digits. -/
def isHexadecimal : List Char → Bool
  | '0' :: c :: digits =>
    (c == 'x' || c == 'X') && isRunOf Numeral.isHexDigit digits
  | _ => false

/-- Whether a text is `0b`, in either case, followed by binary digits. -/
def isBinary : List Char → Bool
  | '0' :: c :: digits =>
    (c == 'b' || c == 'B') && isRunOf Numeral.isBinaryDigit digits
  | _ => false

/-- Whether a text is a run of decimal digits, with an optional minus sign. -/
def isDecimal : List Char → Bool
  | '-' :: digits => isRunOf Char.isDigit digits
  | digits => isRunOf Char.isDigit digits

namespace Kind

/-- Whether a text has the shape of a kind. -/
def admits (text : List Char) : Kind → Bool
  | newline => text == ['\n']
  | comment => text.head? == some ';'
  | register => isRegister text
  | hexadecimal => isHexadecimal text
  | decimal => isDecimal text
  | binary => isBinary text
  | label => isLabel text
  | mnemonic => isName text

/-- The kinds in the order in which a text is tried against them. -/
def order : List Kind :=
  [newline, comment, register, hexadecimal, decimal, binary, label, mnemonic]

/-- The kind of a text: the first kind that admits it, if one does. -/
def ofText? (text : String) : Option Kind :=
  let characters := text.toList
  order.find? fun kind => kind.admits characters

end Kind
end Token

/-- A lexeme with the kind of its text. -/
structure Token extends Lexeme where
  kind : Token.Kind
  kind_eq : Token.Kind.ofText? text = some kind
  deriving DecidableEq, Repr

namespace Token

/-- The token of a lexeme, if its text has a kind. -/
def ofLexeme? (lexeme : Lexeme) : Option Token :=
  match h : Kind.ofText? lexeme.text with
  | some kind => some ⟨lexeme, kind, h⟩
  | none => none

/-- How a token is shown in messages: its kind and, unless it is a line break,
its text in quotes. -/
def display (token : Token) : String :=
  match token.kind with
  | .newline => Kind.newline.name
  | kind => kind.name ++ " '" ++ token.text ++ "'"

/-- The name that a label token defines. -/
def labelName (token : Token) : String :=
  Source.labelName token.text.toList

end Token
end Pom8
