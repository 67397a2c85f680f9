import Pom8.Log
import Pom8.Progress

/-!
# Scanning a source

A scan reads the lexemes of a source in order.  Label definitions go to the
symbol table; all other tokens are kept.  A line with at least one kept token
is a line of code: it ends in a line break token and takes one address.
-/

namespace Pom8

/-- What a scan has found so far. -/
structure Scan where
  /-- The kept tokens. -/
  tokens : Array Token := #[]
  /-- The labels defined. -/
  symbols : SymbolTable := .empty
  /-- The address of the next line of code. -/
  address : Nat := 0
  /-- Whether the line being read has a kept token. -/
  inCode : Bool := false
  /-- What has happened. -/
  events : Array Event := #[]
  deriving DecidableEq, Repr

namespace Scan

/-- Keeps a token of the line being read. -/
def keep (scan : Scan) (token : Token) : Scan :=
  { scan with
    tokens := scan.tokens.push token
    inCode := true
    events := scan.events.push (.tokenRead token) }

/-- Ends the line being read. -/
def endLine (scan : Scan) (lineBreak : Token) : Scan :=
  if scan.inCode then
    { scan with
      tokens := scan.tokens.push lineBreak
      address := scan.address + 1
      inCode := false }
  else scan

/-- Defines a label at the address of the next line of code. -/
def defineLabel (scan : Scan) (token : Token) : Progress Fault Scan :=
  match scan.symbols.define token.labelName scan.address token.line with
  | .error fault => .halted scan fault
  | .ok symbols =>
    .running { scan with
      symbols := symbols
      events := scan.events.push
        (.labelDefined token.line token.labelName scan.address) }

/-- Reads one lexeme. -/
def step (scan : Scan) (lexeme : Lexeme) : Progress Fault Scan :=
  match Token.ofLexeme lexeme with
  | .error fault => .halted scan fault
  | .ok token =>
    match token.kind with
    | .comment => .running scan
    | .newline => .running (scan.endLine token)
    | .label => scan.defineLabel token
    | _ => .running (scan.keep token)

/-- Scans a whole source. -/
def ofSource (source : String) : Progress Fault Scan :=
  Progress.run step {} (Source.lexemes source)

end Scan
end Pom8
