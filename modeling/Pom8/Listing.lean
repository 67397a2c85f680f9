import Pom8.Assembly

/-!
# Listings

A listing shows each instruction on a row of its own, with its address before
it and its word after it.  Cells are padded so that the columns line up.
-/

namespace Pom8
namespace Listing

/-- A row of a listing. -/
structure Row where
  address : String
  instruction : String
  word : String
  deriving DecidableEq, Repr

/-- The row of an instruction at an address. -/
def Row.of (address : Nat) (instruction : Instruction) (word : Word) : Row where
  address := "0x" ++ Numeral.upperHex 4 address ++ ":"
  instruction := instruction.text
  word := word.text

/-- The rows of an assembly, with addresses from zero. -/
def rows (assembly : Assembly) : List Row :=
  ((assembly.program.zip assembly.words).zipIdx).map
    fun ((instruction, word), address) => Row.of address instruction word

/-- The length of the longest of some texts. -/
def width (cells : List String) : Nat :=
  cells.foldl (fun longest cell => max longest cell.length) 0

/-- A text with blanks after it, up to a width. -/
def pad (width : Nat) (cell : String) : String :=
  cell ++ String.ofList (List.replicate (width - cell.length) ' ')

/-- A row as text, for the given widths of its first two columns. -/
def Row.text (addressWidth instructionWidth : Nat) (row : Row) : String :=
  pad addressWidth row.address ++ " " ++
    pad instructionWidth row.instruction ++ " => " ++ row.word

/-- The lines of a listing. -/
def lines (assembly : Assembly) : List String :=
  let rows := rows assembly
  let addressWidth := width (rows.map Row.address)
  let instructionWidth := width (rows.map Row.instruction)
  rows.map (Row.text addressWidth instructionWidth)

end Listing

/-- Lines as one text, each ended by a line break. -/
def joinLines (lines : List String) : String :=
  String.join (lines.map (· ++ Source.lineBreak))

/-- The listing of an assembly, ended by an empty line. -/
def Assembly.listing (assembly : Assembly) : String :=
  joinLines (Listing.lines assembly ++ [""])

/-- The words of an assembly, one on each line. -/
def Assembly.machineCode (assembly : Assembly) : String :=
  joinLines (assembly.words.map Word.text)

end Pom8
