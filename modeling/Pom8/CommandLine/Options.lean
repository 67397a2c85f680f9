/-!
# Options of the command line

Arguments are read from left to right.  Asking for help or for the version, or
giving an argument that has no place, ends the reading at once; what is missing
or repeated is found after the last argument.
-/

namespace Pom8.CommandLine

/-- What a run is asked to do. -/
structure Options where
  /-- The path of the source. -/
  input : String
  /-- The path for the machine code; without one it goes to standard output. -/
  output : Option String
  /-- Whether to print a listing. -/
  listing : Bool
  /-- How often more detail was asked for. -/
  verbosity : Nat
  deriving DecidableEq, Repr

/-- The reasons for which arguments are refused. -/
inductive Refusal where
  | unexpectedArgument (argument : String)
  | missingInput
  | missingOutputValue
  | repeatedOutput
  | repeatedListing
  deriving DecidableEq, Repr

/-- The message of an option that is given too often. -/
def Refusal.repeated (option : String) : String :=
  s!"error: The argument '{option}' was provided more than once, " ++
    "but cannot be used multiple times"

/-- The message of a refusal. -/
def Refusal.message : Refusal → String
  | unexpectedArgument argument =>
    s!"error: Found argument '{argument}' which wasn't expected, " ++
      "or isn't valid in this context"
  | missingInput => "error: The following required arguments were not provided:"
  | missingOutputValue =>
    "error: The argument '--output <output>' requires a value " ++
      "but none was supplied"
  | repeatedOutput => repeated "--output <output>"
  | repeatedListing => repeated "-d"

/-- The first line of a refusal's message; an argument in it can hold line
breaks. -/
def Refusal.headline (refusal : Refusal) : String :=
  String.ofList (refusal.message.toList.takeWhile (· != '\n'))

/-- The reasons for which reading arguments ends without options. -/
inductive Interruption where
  | help
  | version
  | refused (refusal : Refusal)
  deriving DecidableEq, Repr

/-- What the arguments read so far have given. -/
structure Given where
  input : Option String := none
  output : Option String := none
  /-- How often the output option was given, with or without a value. -/
  outputCount : Nat := 0
  /-- How often the listing flag was given. -/
  listingCount : Nat := 0
  verbosity : Nat := 0
  /-- Whether the next plain argument is the value of the output option. -/
  awaitsOutput : Bool := false
  /-- Whether all further arguments are plain. -/
  optionsEnded : Bool := false
  deriving DecidableEq, Repr

namespace Given

/-- Takes the output option with the value attached to it, if there is one;
equals signs in front of the value are dropped. -/
def takeOutput (given : Given) (value : Option (List Char)) : Given :=
  let value := value.map fun text => String.ofList (text.dropWhile (· == '='))
  { given with
    output := given.output.or value
    outputCount := given.outputCount + 1
    awaitsOutput := value.isNone }

/-- Takes a plain argument: a value that is awaited, or else the input. -/
def takePlain (given : Given) (argument : String) :
    Except Interruption Given :=
  if given.awaitsOutput ∧ ¬given.optionsEnded then
    .ok { given with
      output := given.output.or (some argument)
      awaitsOutput := false }
  else
    match given.input with
    | none => .ok { given with input := some argument }
    | some _ => .error (.refused (.unexpectedArgument argument))

/-- Takes a bundle of one-letter flags.  The output option takes the rest of
the bundle as its value. -/
def takeShort (given : Given) : List Char → Except Interruption Given
  | [] => .ok given
  | 'v' :: rest =>
    takeShort { given with verbosity := given.verbosity + 1 } rest
  | 'd' :: rest =>
    takeShort { given with listingCount := given.listingCount + 1 } rest
  | 'o' :: rest =>
    .ok (given.takeOutput (if rest.isEmpty then none else some rest))
  | 'h' :: _ => .error .help
  | 'V' :: _ => .error .version
  | flag :: _ =>
    .error (.refused (.unexpectedArgument (String.ofList ['-', flag])))

/-- Takes a long option, given without its dashes.  What follows the first
equals sign is its value. -/
def takeLong (given : Given) (text : List Char) : Except Interruption Given :=
  let name := String.ofList (text.takeWhile (· != '='))
  let value :=
    match text.dropWhile (· != '=') with
    | [] => none
    | _ :: value => some value
  match name with
  | "output" => .ok (given.takeOutput value)
  | "help" => .error .help
  | "version" => .error .version
  | _ => .error (.refused (.unexpectedArgument ("--" ++ name)))

/-- Takes one argument.  A lone dash is a plain argument. -/
def take (given : Given) (argument : String) : Except Interruption Given :=
  if given.optionsEnded then given.takePlain argument
  else
    match argument.toList with
    | ['-', '-'] => .ok { given with optionsEnded := true }
    | '-' :: '-' :: text =>
      takeLong { given with awaitsOutput := false } (text.dropWhile (· == '-'))
    | '-' :: flag :: flags =>
      takeShort { given with awaitsOutput := false } (flag :: flags)
    | _ => given.takePlain argument

/-- The options, if nothing is missing or repeated. -/
def finish (given : Given) : Except Interruption Options :=
  match given.input with
  | none => .error (.refused .missingInput)
  | some input =>
    if given.outputCount > 0 ∧ given.output = none then
      .error (.refused .missingOutputValue)
    else if given.outputCount > 1 then .error (.refused .repeatedOutput)
    else if given.listingCount > 1 then .error (.refused .repeatedListing)
    else
      .ok {
        input := input
        output := given.output
        listing := given.listingCount == 1
        verbosity := given.verbosity }

end Given

/-- The options that some arguments ask for. -/
def Options.ofArguments (arguments : List String) :
    Except Interruption Options := do
  (← arguments.foldlM Given.take {}).finish

end Pom8.CommandLine
