import Pom8.CommandLine.Session
import Pom8.Main
import Pom8.Proofs.Runs
import Pom8.Proofs.Kinds
import Pom8.Proofs.LetterCase
import Pom8.Proofs.Numerals
import Pom8.Proofs.Items
import Pom8.Proofs.Scanning
import Pom8.Proofs.Statements
import Pom8.Proofs.Assembling
import Pom8.Proofs.Addresses
import Pom8.Proofs.Language
import Pom8.Proofs.Fields
import Pom8.Proofs.Registers
import Pom8.Proofs.Decoding
import Pom8.Proofs.Linking
import Pom8.Proofs.CaseFolding
import Pom8.Proofs.Printing
import Pom8.Proofs.Reassembling
import Pom8.Proofs.Definitions
import Pom8.Proofs.Faults
import Pom8.Proofs.Lookahead
import Pom8.Proofs.TokenStreams
import Pom8.Proofs.LineBreaks
import Pom8.Proofs.Files
import Pom8.Proofs.Skeletons
import Pom8.Proofs.Sessions
import Pom8.Proofs.Verbosity
import Pom8.Proofs.LineGroups
import Pom8.Proofs.FaultTexts
import Pom8.Proofs.References
import Pom8.Proofs.Places
import Pom8.Proofs.Targets
import Pom8.Proofs.FieldSums
import Pom8.Proofs.Literals
import Pom8.Proofs.Logs
import Pom8.Proofs.Listings
import Pom8.Proofs.SymbolOrder
import Pom8.Proofs.Patterns
import Pom8.Proofs.FileSystems
