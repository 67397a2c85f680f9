import Pom8.Text.Character

/-!
# The lines and items of a source text

A source is a text of lines, each of which holds items up to an optional
comment.  `Source.lexemes` lists the items of all lines in reading order, with
one line break after the items of each line.
-/

namespace Pom8

/-- A piece of source text with the number of the line it stands on. -/
structure Lexeme where
  text : String
  line : Nat
  deriving DecidableEq, Repr

namespace Source

/-- The text of a line break. -/
def lineBreak : String := "\n"

/-- The lines of a source; a line break at the very end starts no further line. -/
def lines (source : String) : List (List Char) :=
  let segments := source.toList.splitOnP (· == '\n')
  if segments.getLast? = some [] then segments.dropLast else segments

/-- The part of a line before its comment. -/
def code (line : List Char) : List Char :=
  line.takeWhile (· != ';')

/-- The items of a line: the longest runs without separators in its code. -/
def items (line : List Char) : List (List Char) :=
  ((code line).splitOnP Text.isSeparator).filter (!·.isEmpty)

/-- The name that an item defines as a label: all of it but its colon. -/
def labelName (item : List Char) : String :=
  String.ofList item.dropLast

/-- The items of one numbered line, followed by its line break. -/
def lineLexemes (line : List Char) (number : Nat) : List Lexeme :=
  (items line).map (fun item => ⟨String.ofList item, number⟩) ++
    [⟨lineBreak, number⟩]

/-- The items and line breaks of a source, with lines numbered from one. -/
def lexemes (source : String) : List Lexeme :=
  ((lines source).zipIdx 1).flatMap fun (line, number) =>
    lineLexemes line number

end Source
end Pom8
