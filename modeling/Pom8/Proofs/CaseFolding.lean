import Pom8.Proofs.LetterCase
import Pom8.Proofs.Numerals
import Pom8.Proofs.Assembling

/-!
# The case of letters

Every stage of an assembly does to a source in lower case what it does to the
source itself, up to the case of the texts it quotes.  The stages are followed
one by one, from the items of a line to the report of the whole source, so two
sources that differ in the case of their letters only have the same outcome.
-/

namespace Pom8

/-! ## Lower case, from lexemes to reports -/

/-- The lexeme with its text in lower case. -/
def Lexeme.lower (lexeme : Lexeme) : Lexeme :=
  { lexeme with text := Text.lower lexeme.text }

/-- The token with its text in lower case. -/
def Token.lower (token : Token) : Token where
  toLexeme := token.toLexeme.lower
  kind := token.kind
  kind_eq := (Kind.ofText?_lower token.text).trans token.kind_eq

/-- The operand with the name of its label, if it is one, in lower case. -/
def Operand.lower : Operand → Operand
  | label name => label (Text.lower name)
  | operand => operand

/-- The instruction with the labels among its operands in lower case. -/
def Instruction.lower (instruction : Instruction) : Instruction :=
  { instruction with operands := instruction.operands.map Operand.lower }

/-- The fault with the text that it quotes from the source in lower case.  The
name of an unknown mnemonic is no such text: it is in upper case always. -/
def Fault.lower : Fault → Fault
  | unrecognised line text => unrecognised line (Text.lower text)
  | duplicateLabel line label first => duplicateLabel line (Text.lower label) first
  | unknownMnemonic line name => unknownMnemonic line name
  | unexpected line expected found => unexpected line expected (found.map Token.lower)
  | outOfRange line text kind => outOfRange line (Text.lower text) kind
  | undefinedLabel line label => undefinedLabel line (Text.lower label)

/-- The event with all it quotes from the source in lower case. -/
def Event.lower : Event → Event
  | labelDefined line name address => labelDefined line (Text.lower name) address
  | tokenRead token => tokenRead token.lower
  | scanned instructions labels => scanned instructions labels
  | operandRead line operand => operandRead line operand.lower
  | instructionRead instruction => instructionRead instruction.lower
  | assembled instructions => assembled instructions

/-- The scan with its tokens and events in lower case. -/
def Scan.lower (scan : Scan) : Scan :=
  { scan with
    tokens := scan.tokens.map Token.lower
    events := scan.events.map Event.lower }

/-- The statement with the labels among its operands in lower case. -/
def Statement.lower (statement : Statement) : Statement :=
  { statement with operands := statement.operands.map Operand.lower }

/-- The draft with its instructions, statement and events in lower case. -/
def Draft.lower (draft : Draft) : Draft where
  instructions := draft.instructions.map Instruction.lower
  statement := draft.statement.map Statement.lower
  events := draft.events.map Event.lower

/-- The assembly with its program in lower case. -/
def Assembly.lower (assembly : Assembly) : Assembly :=
  { assembly with program := assembly.program.map Instruction.lower }

/-- The outcome with the fault or the program in lower case. -/
def lowerOutcome : Except Fault Assembly → Except Fault Assembly
  | .ok assembly => .ok assembly.lower
  | .error fault => .error fault.lower

/-- The report with its events and its outcome in lower case. -/
def Report.lower (report : Report) : Report where
  events := report.events.map Event.lower
  outcome := lowerOutcome report.outcome

/-! ## Lines and items -/

namespace Source

theorem lines_lower (source : String) :
    lines (Text.lower source) = (lines source).map (List.map Char.toLower) := by
  have hbreak : ∀ c : Char, (c.toLower == '\n') = (c == '\n') := by
    intro c
    rw [Bool.eq_iff_iff, beq_iff_eq, beq_iff_eq]
    exact Text.toLower_eq_iff (Or.inl (by decide))
  have hsplit := @splitOnP_map _ (· == '\n') Char.toLower hbreak source.toList
  have hlast : ∀ segments : List (List Char),
      (segments.map (List.map Char.toLower)).getLast? = some [] ↔
        segments.getLast? = some [] := by
    intro segments
    simp [List.getLast?_map]
  simp only [lines, Text.toList_lower, hsplit, hlast]
  split
  · rw [List.map_dropLast]
  · rfl

theorem items_map_toLower (line : List Char) :
    items (line.map Char.toLower) = (items line).map (List.map Char.toLower) := by
  have hcomment : ((· != ';') ∘ Char.toLower) = fun c : Char => c != ';' := by
    funext c
    rw [Function.comp_apply, Bool.eq_iff_iff, bne_iff_ne, bne_iff_ne]
    exact not_congr (Text.toLower_eq_iff (Or.inl (by decide)))
  rw [items, code, List.takeWhile_map, hcomment,
    splitOnP_map Text.isSeparator_toLower, List.filter_map, items, code]
  congr 2
  funext item
  simp

theorem lexemes_lower (source : String) :
    lexemes (Text.lower source) = (lexemes source).map Lexeme.lower := by
  have hline : ∀ line number,
      lineLexemes (line.map Char.toLower) number =
        (lineLexemes line number).map Lexeme.lower := by
    intro line number
    simp only [lineLexemes, items_map_toLower, List.map_map, List.map_append,
      List.map_cons, List.map_nil]
    congr 1
    · apply List.map_congr_left
      intro item _
      simp [Lexeme.lower, Text.lower_ofList]
    · have hbreak : Text.lower lineBreak = lineBreak :=
        String.toList_inj.mp (by rw [Text.toList_lower]; decide)
      rw [Lexeme.lower, hbreak]
  rw [lexemes, lines_lower, lexemes, List.zipIdx_map, List.flatMap_map,
    List.map_flatMap]
  apply congrArg (List.flatMap · _)
  funext line
  exact hline line.1 line.2

end Source

/-! ## Tokens and operands -/

theorem Token.ofLexeme_lower (lexeme : Lexeme) :
    Token.ofLexeme lexeme.lower =
      ((Token.ofLexeme lexeme).map Token.lower).mapError Fault.lower := by
  have hoption := ofLexeme?_map Lexeme.lower Token.lower
    (fun lexeme => Kind.ofText?_lower lexeme.text) (fun _ => rfl) lexeme
  rw [Token.ofLexeme, Token.ofLexeme, hoption]
  cases ofLexeme? lexeme with
  | none => rfl
  | some token => rfl

theorem Token.labelName_lower (token : Token) :
    token.lower.labelName = Text.lower token.labelName := by
  rw [labelName, labelName, Source.labelName, Source.labelName, Text.lower_ofList,
    List.map_dropLast, ← Text.toList_lower]
  rfl

theorem Operand.ofToken?_of_decimal
    {token : Token} (hkind : token.kind = .decimal) :
    ofToken? token =
      some (immediate
        (if token.text.toList.head? = some '-' then
          -Numeral.value 10 (token.text.toList.drop 1)
        else Numeral.value 10 token.text.toList) .decimal) := by
  simp only [ofToken?, hkind]
  split
  next digits htext => simp [htext]
  next hshape =>
    rw [if_neg]
    intro hhead
    obtain ⟨digits, hdigits⟩ := List.head?_eq_some_iff.mp hhead
    exact hshape digits hdigits

theorem Operand.ofToken?_lower (token : Token) :
    ofToken? token.lower = (ofToken? token).map Operand.lower := by
  have htext : token.lower.text.toList = token.text.toList.map Char.toLower :=
    Text.toList_lower token.text
  have hkind : token.lower.kind = token.kind := rfl
  cases hcase : token.kind with
  | decimal =>
      have hsign : (token.text.toList.map Char.toLower).head? = some '-' ↔
          token.text.toList.head? = some '-' := by
        rw [List.head?_map]
        exact Text.map_toLower_eq_some_iff (by decide)
      rw [ofToken?_of_decimal hcase, ofToken?_of_decimal (hkind.trans hcase), htext]
      simp only [hsign, ← List.map_drop, Numeral.value_map_toLower]
      rfl
  | register | hexadecimal | binary =>
      simp only [ofToken?, hkind, hcase, htext, ← List.map_drop,
        Numeral.value_map_toLower]
      rfl
  | mnemonic | label | comment | newline =>
      simp only [ofToken?, hkind, hcase]
      rfl

namespace SymbolTable

variable (table : SymbolTable) (name : String)

@[simp] theorem find?_lower : table.find? (Text.lower name) = table.find? name := by
  rw [find?, find?, Text.lower_lower]

theorem define_lower (address line : Nat) :
    table.define (Text.lower name) address line =
      (table.define name address line).mapError Fault.lower := by
  cases hfind : table.find? name with
  | some first =>
      rw [define_eq_error hfind,
        define_eq_error ((find?_lower table name).trans hfind)]
      rfl
  | none =>
      rw [find?_eq_none_iff] at hfind
      obtain ⟨next, hnext⟩ := exists_define_eq_ok hfind address line
      have hlower : table.define (Text.lower name) address line = .ok next := by
        rw [define_eq_ok_iff, Text.lower_lower]
        exact define_eq_ok_iff.mp hnext
      rw [hnext, hlower]
      rfl

end SymbolTable

@[simp] theorem Operand.isValid_lower (symbols : SymbolTable) (operand : Operand) :
    operand.lower.isValid symbols = operand.isValid symbols := by
  cases operand with
  | register index => rfl
  | immediate value radix => rfl
  | label name =>
      simp only [lower, isValid, SymbolTable.contains, SymbolTable.find?_lower]

/-! ## Scans -/

namespace Scan

theorem endLine_lower (scan : Scan) (token : Token) :
    scan.lower.endLine token.lower = (scan.endLine token).lower := by
  unfold endLine
  by_cases hcode : scan.inCode = true
  · rw [if_pos hcode, if_pos (show scan.lower.inCode = true from hcode)]
    simp [lower]
  · rw [if_neg hcode, if_neg (show ¬scan.lower.inCode = true from hcode)]

theorem keep_lower (scan : Scan) (token : Token) :
    scan.lower.keep token.lower = (scan.keep token).lower := by
  simp [keep, lower, Event.lower]

theorem defineLabel_lower (scan : Scan) (token : Token) :
    scan.lower.defineLabel token.lower =
      (scan.defineLabel token).map Fault.lower lower := by
  have hdefine : scan.lower.symbols.define token.lower.labelName scan.lower.address
      token.lower.line =
        (scan.symbols.define token.labelName scan.address token.line).mapError
          Fault.lower := by
    rw [Token.labelName_lower]
    exact scan.symbols.define_lower token.labelName scan.address token.line
  unfold defineLabel
  rw [hdefine]
  cases scan.symbols.define token.labelName scan.address token.line with
  | error fault => rfl
  | ok symbols =>
      simp only [Except.mapError, Progress.map, lower, Token.labelName_lower,
        Array.map_push]
      rfl

/-- A step on a lexeme in lower case follows the step on the lexeme. -/
theorem step_lower (scan : Scan) (lexeme : Lexeme) :
    scan.lower.step lexeme.lower = (scan.step lexeme).map Fault.lower lower := by
  unfold step
  rw [Token.ofLexeme_lower]
  cases Token.ofLexeme lexeme with
  | error fault => rfl
  | ok token =>
      simp only [Except.map, Except.mapError]
      have hkind : token.lower.kind = token.kind := rfl
      rw [hkind]
      cases token.kind with
      | comment => rfl
      | newline => exact congrArg Progress.running (endLine_lower scan token)
      | label => exact defineLabel_lower scan token
      | register | mnemonic | hexadecimal | decimal | binary =>
          exact congrArg Progress.running (keep_lower scan token)

theorem ofSource_lower (source : String) :
    ofSource (Text.lower source) = (ofSource source).map Fault.lower lower := by
  have hempty : ({} : Scan).lower = {} := by
    simp [lower]
  have hrun := Progress.run_map step_lower {} (Source.lexemes source)
  rw [hempty, ← Source.lexemes_lower] at hrun
  exact hrun

end Scan

/-! ## Statements and drafts -/

theorem Mnemonic.ofText?_lower (text : String) :
    ofText? (Text.lower text) = ofText? text := by
  rw [ofText?, ofText?, Text.upper_lower]

namespace Statement

theorem start_lower (token : Token) :
    start token.lower = ((start token).map lower).mapError Fault.lower := by
  have hkind : token.lower.kind = token.kind := rfl
  have htext : token.lower.text = Text.lower token.text := rfl
  unfold start
  rw [hkind, htext, Mnemonic.ofText?_lower, Text.upper_lower]
  cases token.kind with
  | mnemonic =>
      cases Mnemonic.ofText? token.text with
      | none => rfl
      | some mnemonic => rfl
  | register | hexadecimal | decimal | binary | label | comment | newline => rfl

theorem invalidOperand_lower (token : Token) (operand : Operand) :
    invalidOperand token.lower operand.lower =
      (invalidOperand token operand).lower := by
  cases operand with
  | register index => rfl
  | immediate value radix => rfl
  | label name => rfl

/-- Lower case of an operand and of the statement grown by it. -/
def lowerGrown (grown : Operand × Statement) : Operand × Statement :=
  (grown.1.lower, grown.2.lower)

theorem take_lower (symbols : SymbolTable) (statement : Statement) (token : Token) :
    statement.lower.take symbols token.lower =
      ((statement.take symbols token).map lowerGrown).mapError Fault.lower := by
  have hkind : token.lower.kind = token.kind := rfl
  have hlayouts : statement.lower.layouts = statement.layouts := rfl
  unfold take
  rw [Operand.ofToken?_lower, hkind, hlayouts]
  cases Operand.ofToken? token with
  | none => rfl
  | some operand =>
      cases statement.layouts.filterMap (Layout.after? token.kind) with
      | nil => rfl
      | cons layout layouts =>
          simp only [Option.map_some, Operand.isValid_lower]
          by_cases hvalid : operand.isValid symbols = true
          · rw [if_pos hvalid, if_pos hvalid]
            simp only [Except.map, Except.mapError, lowerGrown, lower,
              List.map_append, List.map_cons, List.map_nil]
            rfl
          · rw [if_neg hvalid, if_neg hvalid, invalidOperand_lower]
            rfl

end Statement

namespace Draft

theorem close_lower (draft : Draft) (statement : Statement) :
    draft.lower.close statement.lower = (draft.close statement).lower := by
  have hinstruction : statement.lower.instruction = statement.instruction.lower := rfl
  simp [close, lower, Event.lower, hinstruction]

/-- A step on a token in lower case follows the step on the token. -/
theorem step_lower (symbols : SymbolTable) (draft : Draft) (token : Token) :
    draft.lower.step symbols token.lower =
      (draft.step symbols token).map Fault.lower lower := by
  unfold step
  have hstatement : draft.lower.statement = draft.statement.map Statement.lower := rfl
  rw [hstatement]
  cases hcase : draft.statement with
  | none =>
      simp only [Option.map_none]
      rw [Statement.start_lower]
      cases Statement.start token with
      | error fault => rfl
      | ok statement => rfl
  | some statement =>
      have hcomplete : statement.lower.isComplete = statement.isComplete := rfl
      have hkind : token.lower.kind = token.kind := rfl
      simp only [Option.map_some, hcomplete, hkind]
      by_cases hclose : token.kind = .newline ∧ statement.isComplete = true
      · rw [if_pos hclose, if_pos hclose, close_lower]
        rfl
      · rw [if_neg hclose, if_neg hclose, Statement.take_lower]
        cases statement.take symbols token with
        | error fault => rfl
        | ok grown =>
            simp only [Except.map, Except.mapError, Progress.map,
              Statement.lowerGrown, lower, Array.map_push]
            rfl

theorem finish_lower (draft : Draft) :
    draft.lower.finish = draft.finish.map Fault.lower lower := by
  unfold finish
  have hstatement : draft.lower.statement = draft.statement.map Statement.lower := rfl
  rw [hstatement]
  cases draft.statement with
  | none => rfl
  | some statement =>
      have hcomplete : statement.lower.isComplete = statement.isComplete := rfl
      simp only [Option.map_some, hcomplete]
      by_cases hclose : statement.isComplete = true
      · rw [if_pos hclose, if_pos hclose, close_lower]
        rfl
      · rw [if_neg hclose, if_neg hclose]
        rfl

theorem ofTokens_lower (symbols : SymbolTable) (tokens : List Token) :
    ofTokens symbols (tokens.map Token.lower) =
      (ofTokens symbols tokens).map Fault.lower lower := by
  have hempty : ({} : Draft).lower = {} := by
    simp [lower]
  have hrun := Progress.run_map (step_lower symbols) {} tokens
  rw [hempty] at hrun
  rw [ofTokens, ofTokens, ← Progress.map_andThen finish_lower, ← hrun]

end Draft

/-! ## Words and reports -/

namespace Instruction

variable (symbols : SymbolTable) (instruction : Instruction)

theorem registerField_lower (position : Nat) :
    instruction.lower.registerField position = instruction.registerField position := by
  have hregister : ∀ operand : Operand, operand.lower.register? = operand.register? := by
    intro operand
    cases operand <;> rfl
  simp only [registerField, lower, List.getElem?_map, Option.bind_map,
    Function.comp_def, hregister]

theorem valueField_lower : instruction.lower.valueField = instruction.valueField := by
  have hvalue : ∀ operand : Operand, operand.lower.value? = operand.value? := by
    intro operand
    cases operand <;> rfl
  simp only [valueField, lower, List.filterMap_map, Function.comp_def, hvalue]

theorem addressField_lower :
    instruction.lower.addressField symbols = instruction.addressField symbols := by
  simp only [addressField, lower, List.head?_map]
  cases instruction.operands.head? with
  | none => rfl
  | some operand =>
      cases operand with
      | register index => rfl
      | immediate value radix => rfl
      | label name =>
          simp only [Option.map_some, Operand.lower, SymbolTable.address?,
            SymbolTable.find?_lower]

/-- The word of an instruction does not depend on the case of its labels. -/
theorem encode_lower :
    instruction.lower.encode symbols = instruction.encode symbols := by
  have hformat : instruction.lower.format = instruction.format := rfl
  have hmnemonic : instruction.lower.mnemonic = instruction.mnemonic := rfl
  have hcode : instruction.lower.codeField = instruction.codeField := rfl
  rw [encode, encode, hformat, registerWord, branchWord, immediateWord]
  simp only [registerField_lower, valueField_lower, addressField_lower, hcode,
    hmnemonic]
  rfl

end Instruction

theorem Word.ofProgram_lower (symbols : SymbolTable) (program : List Instruction) :
    ofProgram symbols (program.map Instruction.lower) = ofProgram symbols program := by
  rw [ofProgram, ofProgram, List.map_map]
  apply List.map_congr_left
  intro instruction _
  exact instruction.encode_lower symbols

namespace Report

theorem ofScan_lower (scan : Scan) : ofScan scan.lower = (ofScan scan).lower := by
  have htokens : scan.lower.tokens.toList = scan.tokens.toList.map Token.lower := by
    simp [Scan.lower]
  have hsymbols : scan.lower.symbols = scan.symbols := rfl
  unfold ofScan
  rw [htokens, hsymbols, Draft.ofTokens_lower]
  cases Draft.ofTokens scan.symbols scan.tokens.toList with
  | halted draft fault =>
      simp [Progress.map, lower, lowerOutcome, Scan.lower, Draft.lower, Event.lower]
  | running draft =>
      simp [Progress.map, lower, lowerOutcome, Assembly.lower, Scan.lower, Draft.lower,
        Event.lower, Word.ofProgram_lower]

/-- The report on a source in lower case is the report on the source, in lower
case. -/
theorem ofSource_lower (source : String) :
    ofSource (Text.lower source) = (ofSource source).lower := by
  rw [ofSource, ofSource, Scan.ofSource_lower]
  cases Scan.ofSource source with
  | halted scan fault => rfl
  | running scan => exact ofScan_lower scan

end Report

theorem assemble_lower (source : String) :
    assemble (Text.lower source) = lowerOutcome (assemble source) := by
  rw [assemble, Report.ofSource_lower]
  rfl

/-! ## Messages -/

theorem Token.lower_display (token : Token) :
    Text.lower token.lower.display = Text.lower token.display := by
  have hkind : token.lower.kind = token.kind := rfl
  have htext : token.lower.text = Text.lower token.text := rfl
  unfold display
  rw [hkind, htext]
  split
  · rfl
  · simp

theorem Fault.lower_message (fault : Fault) :
    Text.lower fault.lower.message = Text.lower fault.message := by
  have hquoted : ∀ text : String, toString text = text := fun _ => rfl
  have hline : fault.lower.line = fault.line := by
    cases fault <;> rfl
  have hreason : Text.lower fault.lower.reason = Text.lower fault.reason := by
    unfold reason
    cases fault with
    | unexpected line expected found =>
        cases found with
        | none => rfl
        | some token =>
            simp only [lower, foundName, hquoted, Option.map_some,
              Text.lower_append, Token.lower_display]
    | _ => simp only [lower, hquoted, Text.lower_append, Text.lower_lower]
  simp only [message, hline, hquoted, Text.lower_append, hreason]

/-! ## Sources that differ in the case of letters only -/

/-- Two texts of one length have the same characters, up to the case of ASCII
letters. -/
def Text.SameLetters (first second : String) : Prop :=
  List.Forall₂ (fun c d => c.toLower = d.toLower) first.toList second.toList

theorem Text.sameLetters_iff {first second : String} :
    SameLetters first second ↔ lower first = lower second := by
  rw [← String.toList_inj, toList_lower, toList_lower, ← List.forall₂_eq_eq_eq,
    List.forall₂_map_left_iff, List.forall₂_map_right_iff]
  rfl

/-- Two outcomes agree up to the case of what they quote from their sources:
words and symbols are the same, and so are the instructions but for the case of
labels; or the faults are of one kind on one line, and their texts and messages
differ in case only. -/
inductive SameOutcome : Except Fault Assembly → Except Fault Assembly → Prop
  | assembled
      {first second : Assembly}
      (words : first.words = second.words)
      (symbols : first.symbols = second.symbols)
      (program :
        first.program.map Instruction.lower = second.program.map Instruction.lower) :
      SameOutcome (.ok first) (.ok second)
  | refused
      {first second : Fault}
      (fault : first.lower = second.lower)
      (message : Text.SameLetters first.message second.message) :
      SameOutcome (.error first) (.error second)

theorem sameOutcome_of_lowerOutcome_eq
    {first second : Except Fault Assembly}
    (h : lowerOutcome first = lowerOutcome second) : SameOutcome first second := by
  cases first with
  | ok before =>
      cases second with
      | ok after =>
          have hassembly : before.lower = after.lower := Except.ok.inj h
          have hwords : before.lower.words = after.lower.words :=
            congrArg Assembly.words hassembly
          have hsymbols : before.lower.symbols = after.lower.symbols :=
            congrArg Assembly.symbols hassembly
          exact .assembled hwords hsymbols (congrArg Assembly.program hassembly)
      | error fault => cases h
  | error before =>
      cases second with
      | ok assembly => cases h
      | error after =>
          have hfault : before.lower = after.lower := Except.error.inj h
          refine .refused hfault (Text.sameLetters_iff.mpr ?_)
          rw [← before.lower_message, hfault, after.lower_message]

/-- Sources that differ in the case of ASCII letters only have the same outcome,
up to the case of the names and texts that it quotes. -/
theorem assemble_ignores_letter_case
    {first second : String} (h : Text.SameLetters first second) :
    SameOutcome (assemble first) (assemble second) := by
  apply sameOutcome_of_lowerOutcome_eq
  rw [← assemble_lower, ← assemble_lower, Text.sameLetters_iff.mp h]

/-- A loop in two spellings, and a label that is defined in neither. -/
theorem assemble_ignores_letter_case_loop :
    (Text.SameLetters "Loop: jmp lOOP" "lOOP: JMP Loop" ∧
        SameOutcome (assemble "Loop: jmp lOOP") (assemble "lOOP: JMP Loop")) ∧
      Text.SameLetters "call Far" "CALL fAR" ∧
        SameOutcome (assemble "call Far") (assemble "CALL fAR") := by
  have hloop : Text.SameLetters "Loop: jmp lOOP" "lOOP: JMP Loop" := by
    unfold Text.SameLetters
    decide
  have hcall : Text.SameLetters "call Far" "CALL fAR" := by
    unfold Text.SameLetters
    decide
  exact ⟨⟨hloop, assemble_ignores_letter_case hloop⟩, hcall,
    assemble_ignores_letter_case hcall⟩

end Pom8
