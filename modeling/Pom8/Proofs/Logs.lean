import Pom8.Proofs.Faults

/-!
# What a log tells

A log lists what happened, in order.  The records of the scan tell the labels and
the tokens as they were found; those of the draft tell, instruction by
instruction, the operands and then the instruction.  Where reading stops at a
fault, the log stops at it too: it tells what was done before the fault and
nothing that was not done.
-/

namespace Pom8

open Source

/-! ## Records -/

/-- The label that a symbol was written as. -/
def Symbol.label (symbol : Symbol) : Lexeme :=
  ⟨symbol.name, symbol.line⟩

/-- The record of a label: its name as it was written, and its address. -/
def Symbol.record (symbol : Symbol) : Record :=
  let address := String.ofList (Nat.toDigits 16 symbol.address)
  ⟨.scan, .info,
    s!"Line {symbol.line}: label ({symbol.name}) created for address 0x{address}"⟩

/-- The record of a token. -/
def Token.record (token : Token) : Record :=
  ⟨.scan, .trace, s!"Line {token.line}: {token.display}"⟩

/-- The record of an operand that was read on a line. -/
def Operand.record (line : Nat) (operand : Operand) : Record :=
  ⟨.draft, .trace, s!"Line {line}: created {operand.describe}"⟩

/-- The record of an instruction. -/
def Instruction.record (instruction : Instruction) : Record :=
  let format :=
    match instruction.format with
    | .register => "REGISTER"
    | .branch => "BRANCH"
    | .immediate => "IMMEDIATE"
  ⟨.draft, .debug,
    s!"Line {instruction.line}: parsed {format} instruction `{instruction.text}`"⟩

/-- The records that reading an instruction leaves: one for each operand, and then its
own. -/
def Instruction.records (instruction : Instruction) : List Record :=
  instruction.operands.map (Operand.record instruction.line) ++ [instruction.record]

theorem Numeral.hex_one (n : Nat) : hex 1 n = String.ofList (Nat.toDigits 16 n) := by
  have hlength : 1 - (Nat.toDigits 16 n).length = 0 :=
    Nat.sub_eq_zero_of_le Nat.length_toDigits_pos
  rw [hex, digits, List.leftpad, hlength, List.replicate_zero, List.nil_append]

@[simp] theorem Event.record_labelDefined (line : Nat) (name : String) (address : Nat) :
    (labelDefined line name address).record = Symbol.record ⟨name, address, line⟩ := by
  rw [record, message, Numeral.hex_one]
  rfl

@[simp] theorem Event.record_tokenRead (token : Token) :
    (tokenRead token).record = token.record :=
  rfl

@[simp] theorem Event.record_operandRead (line : Nat) (operand : Operand) :
    (operandRead line operand).record = operand.record line :=
  rfl

@[simp] theorem Event.record_instructionRead (instruction : Instruction) :
    (instructionRead instruction).record = instruction.record := by
  rcases instruction with ⟨mnemonic, operands, format, line⟩
  cases format with
  | register => rfl
  | branch => rfl
  | immediate => rfl

@[simp] theorem Event.record_scanned (instructions labels : Nat) :
    (scanned instructions labels).record =
      ⟨.scan, .debug, s!"Tokenised {instructions} instruction(s), {labels} label(s)."⟩ :=
  rfl

@[simp] theorem Event.record_assembled (instructions : Nat) :
    (assembled instructions).record =
      ⟨.assembly, .info, s!"Assembled {instructions} instruction(s)."⟩ :=
  rfl

/-! ## Records of a scan -/

namespace Scan

/-- The records of a scan. -/
def records (scan : Scan) : List Record :=
  scan.events.toList.map Event.record

/-- What the records of a scan tell of the lexemes it has read: its tokens, in
order, and its labels, in order, each spelled as it was written and with the line
and the address that the table holds. -/
structure Logged (read : List Lexeme) (scan : Scan) : Prop where
  items : ∀ record ∈ scan.records,
    record.origin = .scan ∧ (record.level = .info ∨ record.level = .trace)
  tokens : scan.records.filter (·.level = .trace) =
    (scan.tokens.toList.filter fun token => token.kind != .newline).map Token.record
  labels : ∃ symbols : List Symbol,
    scan.records.filter (·.level = .info) = symbols.map Symbol.record ∧
      symbols.map Symbol.label = read.filterMap labelOf? ∧
        symbols.map Symbol.lower = scan.symbols.entries

theorem Logged.nil : Logged [] {} where
  items := by simp [records]
  tokens := rfl
  labels := ⟨[], rfl, rfl, rfl⟩

/-- What one lexeme does to a scan that goes on. -/
theorem step_cases
    {scan next : Scan} {lexeme : Lexeme} (h : step scan lexeme = .running next) :
    (∃ label symbols, labelOf? lexeme = some label ∧
        scan.symbols.define label.text scan.address label.line = .ok symbols ∧
          next = { scan with
            symbols := symbols
            events := scan.events.push
              (.labelDefined label.line label.text scan.address) }) ∨
      labelOf? lexeme = none ∧
        (next = scan ∨
          (∃ token, token.kind = .newline ∧ next = scan.endLine token) ∨
          ∃ token, token.kind ≠ .newline ∧ next = scan.keep token) := by
  cases hlabel : labelOf? lexeme with
  | some label =>
      rw [step_of_labelOf?_eq_some hlabel] at h
      split at h
      next => cases h
      next symbols hdefine =>
        exact Or.inl ⟨label, symbols, rfl, hdefine, (Progress.running.inj h).symm⟩
  | none =>
      refine Or.inr ⟨rfl, ?_⟩
      unfold step at h
      split at h
      next => cases h
      next token htoken =>
        split at h
        next => exact Or.inl (Progress.running.inj h).symm
        next hkind => exact Or.inr (Or.inl ⟨token, hkind, (Progress.running.inj h).symm⟩)
        next hkind =>
          have hshape := Token.Kind.admits_of_ofText?_eq_some token.kind_eq
          rw [hkind, Token.ofLexeme_eq_ok_iff.mp htoken] at hshape
          exact absurd hlabel (by simp [labelOf?, show Token.isLabel _ = true from hshape])
        next _ hnewline _ =>
          exact Or.inr (Or.inr ⟨token, hnewline, (Progress.running.inj h).symm⟩)

theorem events_endLine (scan : Scan) (lineBreak : Token) :
    (scan.endLine lineBreak).events = scan.events ∧
      (scan.endLine lineBreak).symbols = scan.symbols := by
  unfold endLine
  split
  next => exact ⟨rfl, rfl⟩
  next => exact ⟨rfl, rfl⟩

theorem filter_tokens_endLine
    (scan : Scan) {lineBreak : Token} (h : lineBreak.kind = .newline) :
    ((scan.endLine lineBreak).tokens.toList.filter fun token =>
        token.kind != .newline) =
      scan.tokens.toList.filter fun token => token.kind != .newline := by
  unfold endLine
  split
  next => simp [h]
  next => rfl

/-- One more lexeme leaves a log that tells of it too. -/
theorem Logged.step
    {read : List Lexeme} {lexeme : Lexeme} {scan next : Scan}
    (h : Logged read scan) (hstep : Scan.step scan lexeme = .running next) :
    Logged (read ++ [lexeme]) next := by
  obtain ⟨defined, hrecords, hlabels, hentries⟩ := h.labels
  rcases step_cases hstep with ⟨label, symbols, hlabel, hdefine, rfl⟩ |
    ⟨hlabel, rfl | ⟨token, hkind, rfl⟩ | ⟨token, hkind, rfl⟩⟩
  · -- The label is logged after all others.
    have hnext : records { scan with
        symbols := symbols
        events := scan.events.push
          (.labelDefined label.line label.text scan.address) } =
        scan.records ++ [Symbol.record ⟨label.text, scan.address, label.line⟩] := by
      simp [records]
    exact
      { items := by
          rw [hnext, List.forall_mem_append, List.forall_mem_singleton]
          exact ⟨h.items, rfl, Or.inl rfl⟩
        tokens := by
          rw [hnext, List.filter_append, h.tokens]
          simp [Symbol.record]
        labels := by
          refine ⟨defined ++ [⟨label.text, scan.address, label.line⟩], ?_, ?_, ?_⟩
          · rw [hnext, List.filter_append, hrecords]
            simp [Symbol.record]
          · simp [hlabel, ← hlabels, Symbol.label]
          · simp [(SymbolTable.define_eq_ok_iff.mp hdefine).2, ← hentries,
              Symbol.lower] }
  · exact
      { items := h.items
        tokens := h.tokens
        labels := ⟨defined, hrecords, by simpa [hlabel] using hlabels, hentries⟩ }
  · obtain ⟨hevents, hsymbols⟩ := scan.events_endLine token
    have hnext : (scan.endLine token).records = scan.records := by
      rw [records, hevents, records]
    exact
      { items := hnext ▸ h.items
        tokens := by rw [hnext, filter_tokens_endLine scan hkind, h.tokens]
        labels := by
          rw [hnext, hsymbols]
          exact ⟨defined, hrecords, by simpa [hlabel] using hlabels, hentries⟩ }
  · have hnext : (scan.keep token).records = scan.records ++ [token.record] := by
      simp [records, keep]
    exact
      { items := by
          rw [hnext, List.forall_mem_append, List.forall_mem_singleton]
          exact ⟨h.items, rfl, Or.inr rfl⟩
        tokens := by
          rw [hnext, List.filter_append, h.tokens]
          simp [keep, Token.record, hkind]
        labels := by
          refine ⟨defined, ?_, by simpa [hlabel] using hlabels, hentries⟩
          rw [hnext, List.filter_append, hrecords]
          simp [Token.record] }

theorem logged_of_run
    {read : List Lexeme} {scan : Scan}
    (h : Progress.run step {} read = .running scan) : Logged read scan :=
  Progress.run_induction Logged.nil
    (fun _ _ _ _ hlogged hstep => hlogged.step hstep) h

/-- A scan that halts keeps the state it had reached. -/
theorem eq_of_step_eq_halted
    {scan last : Scan} {lexeme : Lexeme} {fault : Fault}
    (h : step scan lexeme = .halted last fault) : last = scan := by
  unfold step at h
  split at h
  next => exact (Progress.halted.inj h).1.symm
  next =>
    split at h
    next => cases h
    next => cases h
    next =>
      unfold defineLabel at h
      split at h
      next => exact (Progress.halted.inj h).1.symm
      next => cases h
    next => cases h

/-- A scan that halts leaves the log as it was before the lexeme at fault. -/
theorem exists_logged_of_halted
    {source : String} {scan : Scan} {fault : Fault}
    (h : ofSource source = .halted scan fault) :
    ∃ read lexeme rest, lexemes source = read ++ lexeme :: rest ∧
      step scan lexeme = .halted scan fault ∧ Logged read scan := by
  obtain ⟨read, lexeme, rest, state, hlexemes, hread, hstep⟩ :=
    Progress.exists_split_of_run_eq_halted h
  obtain rfl := eq_of_step_eq_halted hstep
  exact ⟨read, lexeme, rest, hlexemes, hstep, logged_of_run hread⟩

end Scan

/-! ## Records of a draft -/

namespace Draft

/-- The records of a draft. -/
def records (draft : Draft) : List Record :=
  draft.events.toList.map Event.record

/-- The records of a statement under way: those of its operands. -/
def openRecords : Option Statement → List Record
  | none => []
  | some statement => statement.operands.map (Operand.record statement.line)

/-- The records of a draft tell of its instructions, in order, and of the statement
under way. -/
def Logged (draft : Draft) : Prop :=
  draft.records =
    draft.instructions.toList.flatMap Instruction.records ++
      openRecords draft.statement

/-- The statement under way, if there is one, stands on a line. -/
def IsOn (number : Nat) (draft : Draft) : Prop :=
  ∀ statement, draft.statement = some statement → statement.line = number

theorem isOn_of_statement_eq_none
    {draft : Draft} (h : draft.statement = none) (number : Nat) :
    draft.IsOn number := by
  intro statement hstatement
  rw [h] at hstatement
  cases hstatement

variable {symbols : SymbolTable} {draft next last : Draft} {token : Token}
  {number : Nat}

/-- One more token of the line leaves a log that tells of it too. -/
theorem Logged.step
    (h : Logged draft) (hon : draft.IsOn number) (htoken : token.line = number)
    (hstep : Draft.step symbols draft token = .running next) :
    Logged next ∧ next.IsOn number := by
  unfold Logged at h
  cases hstatement : draft.statement with
  | none =>
      obtain ⟨statement, hstart, rfl⟩ := (step_of_none hstatement).mp hstep
      obtain ⟨-, mnemonic, -, rfl⟩ := Statement.start_eq_ok_iff.mp hstart
      rw [hstatement] at h
      refine ⟨h, fun other hother => ?_⟩
      rw [← Option.some.inj hother]
      exact htoken
  | some statement =>
      have hline := hon statement hstatement
      rw [hstatement, openRecords] at h
      by_cases hnewline : token.kind = .newline
      · obtain ⟨-, rfl⟩ := (step_of_newline hstatement hnewline).mp hstep
        refine ⟨?_, isOn_of_statement_eq_none rfl number⟩
        have hnext : (draft.close statement).records =
            draft.records ++ [statement.instruction.record] := by
          simp [records, close]
        rw [Logged, hnext, h]
        simp [close, openRecords, Instruction.records, Statement.instruction]
      · obtain ⟨operand, grown, htake, rfl⟩ :=
          (step_of_operand hstatement hnewline).mp hstep
        obtain ⟨-, -, -, rfl⟩ := Statement.take_eq_ok_iff.mp htake
        refine ⟨?_, fun other hother => ?_⟩
        · have hnext : (draft.events.push (.operandRead token.line operand)).toList.map
              Event.record = draft.records ++ [operand.record statement.line] := by
            simp [records, htoken, hline]
          refine hnext.trans ?_
          rw [h]
          simp [openRecords]
        · rw [← Option.some.inj hother]
          exact hline

theorem Logged.run
    {tokens : List Token} (h : Logged draft) (hon : draft.IsOn number)
    (htokens : ∀ token ∈ tokens, token.line = number)
    (hrun : Progress.run (Draft.step symbols) draft tokens = .running next) :
    Logged next ∧ next.IsOn number := by
  induction tokens generalizing draft with
  | nil =>
      obtain rfl := Progress.running.inj hrun
      exact ⟨h, hon⟩
  | cons token rest ih =>
      rw [List.forall_mem_cons] at htokens
      obtain ⟨middle, hstep, hrest⟩ := Progress.run_cons_eq_running_iff.mp hrun
      obtain ⟨hmiddle, hon'⟩ := h.step hon htokens.1 hstep
      exact ih hmiddle hon' htokens.2 hrest

/-- The log of a draft that has read whole lines. -/
theorem logged_of_run_lineTokens
    {lines : List (List Char × Nat)}
    (h : Progress.run (Draft.step symbols) {} (lines.flatMap lineTokens) =
      .running draft) : Logged draft := by
  induction lines using List.reverseRecOn generalizing draft with
  | nil =>
      obtain rfl := Progress.running.inj h
      rfl
  | append_singleton before line ih =>
      rw [List.flatMap_append, List.flatMap_singleton,
        Progress.run_append_eq_running_iff] at h
      obtain ⟨middle, hbefore, hline⟩ := h
      have hnone := statement_eq_none_of_run_lineTokens hbefore
      exact ((ih hbefore).run (isOn_of_statement_eq_none hnone line.2)
        (fun token htoken => line_of_mem_lineTokens htoken) hline).1

theorem eq_of_step_eq_halted
    {fault : Fault} (h : Draft.step symbols draft token = .halted last fault) :
    last = draft := by
  unfold Draft.step at h
  split at h
  next =>
    split at h
    next => exact (Progress.halted.inj h).1.symm
    next => cases h
  next =>
    split at h
    next => cases h
    next =>
      split at h
      next => exact (Progress.halted.inj h).1.symm
      next => cases h

/-- Where reading the statements of a source stops: the instructions are those of
the lines before the fault, and the operands are those before the token at
fault. -/
structure StopsAt (source : String) (symbols : SymbolTable) (fault : Fault)
    (program : List Instruction) (operands : List Operand) : Prop where
  program : List.Forall₂
    (fun line instruction => Instruction.Written symbols
      (keptTokens line.2 (items line.1)) instruction)
    (codeLines (front (fault.line - 1) source)) program
  operands : ∃ line before token after,
    (line, fault.line) ∈ numberedLines source ∧
      lineTokens (line, fault.line) = before ++ token :: after ∧
        fault.Concerns token ∧ Operand.WrittenBy symbols operands before.tail

/-- The tokens of a line before one of them hold no line break. -/
theorem kind_ne_newline_of_lineTokens_eq
    {line : List Char × Nat} {before after : List Token}
    (h : lineTokens line = before ++ token :: after) :
    ∀ other ∈ before, other.kind ≠ .newline := by
  intro other hother
  unfold lineTokens at h
  split at h
  next =>
    -- The line break is the last token, and what stands before it was kept.
    have hkept := congrArg List.dropLast h
    rw [List.dropLast_concat,
      List.dropLast_append_of_ne_nil (List.cons_ne_nil token after)] at hkept
    have hmem : other ∈ keptTokens line.2 (items line.1) := by
      rw [hkept]
      exact List.mem_append_left _ hother
    exact kind_ne_newline_of_mem_keptTokens hmem
  next => simp at h

/-- What a draft holds after whole lines and some tokens of the next one. -/
theorem written_of_run_lineTokens
    {lines : List (List Char × Nat)} {before : List Token}
    (hbefore : ∀ other ∈ before, other.kind ≠ .newline)
    (h : Progress.run (Draft.step symbols) {} (lines.flatMap lineTokens ++ before) =
      .running draft) :
    List.Forall₂
        (fun line instruction => Instruction.Written symbols
          (keptTokens line.2 (items line.1)) instruction)
        (lines.filter fun line => isCode line.1) draft.instructions.toList ∧
      Open symbols before draft.statement := by
  rw [flatMap_lineTokens] at h
  have hcovers := (covers_of_run h).written_of_append
    (fun _ => kind_of_mem_lineGroups) (fun _ => kind_ne_newline_of_mem_lineGroups)
    hbefore
  rw [List.map_map, List.forall₂_map_left_iff] at hcovers
  exact hcovers

/-- The operands of the statement that some tokens begin. -/
theorem Open.exists_operands
    {before : List Token} (h : Open symbols before draft.statement)
    (hon : draft.IsOn number) :
    ∃ operands, Operand.WrittenBy symbols operands before.tail ∧
      openRecords draft.statement = operands.map (Operand.record number) := by
  generalize hstatement : draft.statement = statement at h
  cases h with
  | between => exact ⟨[], .nil, rfl⟩
  | @within head tokens statement hbegun =>
      refine ⟨statement.operands, hbegun.operands, ?_⟩
      rw [openRecords, hon statement hstatement]

theorem exists_log_of_halted
    {source : String} {scan : Scan} {fault : Fault}
    (hscan : Scan.ofSource source = .running scan)
    (h : ofTokens scan.symbols scan.tokens.toList = .halted last fault) :
    ∃ program operands, StopsAt source scan.symbols fault program operands ∧
      last.records = program.flatMap Instruction.records ++
        operands.map (Operand.record fault.line) := by
  have htokens : scan.tokens.toList = (numberedLines source).flatMap lineTokens :=
    (Scan.linesRead_of_ofSource hscan).tokens
  rw [htokens, ofTokens_lineTokens] at h
  obtain ⟨above, line, below, draft, hlines, habove, hline⟩ :=
    exists_line_of_run_eq_halted h
  obtain ⟨before, token, after, state, hsplit, hbefore, hstep⟩ :=
    Progress.exists_split_of_run_eq_halted hline
  obtain rfl := eq_of_step_eq_halted hstep
  have hconcerns := concerns_of_step_eq_halted hstep
  have hon : ∀ other ∈ before ++ token :: after, other.line = above.length + 1 := by
    rw [← hsplit]
    exact fun other hother => line_of_mem_lineTokens hother
  have hnumber : fault.line = above.length + 1 :=
    hconcerns.line_eq.trans (hon token (by simp))
  obtain ⟨hlogged, hison⟩ := (logged_of_run_lineTokens habove).run
    (isOn_of_statement_eq_none (statement_eq_none_of_run_lineTokens habove) _)
    (fun other hother => hon other (List.mem_append_left _ hother)) hbefore
  obtain ⟨hprogram, hopen⟩ := written_of_run_lineTokens
    (kind_ne_newline_of_lineTokens_eq hsplit)
    (Progress.run_append_eq_running_iff.mpr ⟨draft, habove, hbefore⟩)
  obtain ⟨operands, hoperands, hrecords⟩ := hopen.exists_operands hison
  have hfront : codeLines (front (fault.line - 1) source) =
      (above.zipIdx 1).filter fun line => isCode line.1 := by
    rw [codeLines, numberedLines, lines_front, hnumber, hlines, Nat.add_sub_cancel,
      List.take_left]
  refine ⟨last.instructions.toList, operands, ⟨?_, ?_⟩, ?_⟩
  · rw [hfront]
    exact hprogram
  · rw [hnumber]
    exact ⟨line, before, token, after, mem_numberedLines_of_lines_eq hlines, hsplit,
      hconcerns, hoperands⟩
  · rw [hlogged, hrecords, hnumber]

theorem log_of_running
    {source : String} {scan : Scan}
    (hscan : Scan.ofSource source = .running scan)
    (h : ofTokens scan.symbols scan.tokens.toList = .running draft) :
    draft.records = draft.instructions.toList.flatMap Instruction.records := by
  have htokens : scan.tokens.toList = (numberedLines source).flatMap lineTokens :=
    (Scan.linesRead_of_ofSource hscan).tokens
  rw [htokens, ofTokens_lineTokens] at h
  have hlogged := logged_of_run_lineTokens h
  rwa [Logged, statement_eq_none_of_run_lineTokens h, openRecords,
    List.append_nil] at hlogged

end Draft

/-! ## Logs of an assembly -/

theorem Report.log_trace (report : Report) :
    report.log (some .trace) = report.events.toList.map Event.record := by
  rw [log, List.filter_eq_self]
  intro record _
  cases hlevel : record.level <;> simp [Record.isKept, hlevel, Level.rank]

theorem Source.countP_numberedLines (source : String) :
    ((numberedLines source).countP fun line => isCode line.1) =
      (lines source).countP isCode := by
  rw [← List.zipIdx_map_fst 1 (lines source), List.countP_map]
  rfl

theorem Source.length_codeLines (source : String) :
    (codeLines source).length = (lines source).countP isCode := by
  rw [codeLines, ← List.countP_eq_length_filter, countP_numberedLines]

theorem Scan.address_of_ofSource
    {source : String} {scan : Scan} (h : Scan.ofSource source = .running scan) :
    scan.address = (lines source).countP isCode := by
  rw [(Scan.linesRead_of_ofSource h).address, countP_numberedLines, Nat.zero_add]

theorem Draft.length_of_running
    {source : String} {scan : Scan} {draft : Draft}
    (hscan : Scan.ofSource source = .running scan)
    (h : Draft.ofTokens scan.symbols scan.tokens.toList = .running draft) :
    draft.instructions.toList.length = (lines source).countP isCode := by
  have hwritten := (exists_ofTokens_iff hscan).mp ⟨draft, h, rfl⟩
  rw [← hwritten.length_eq, length_codeLines]

/-- The log of a source, at all levels, tells how its assembly went.  If the scan
halts, it tells of the items before the one at fault and of nothing else.
Otherwise it counts the lines of code and the labels after all records of the
scan, and then tells of the instructions in order: those of the lines before the
fault, with the operands read on its line, or else all of them, which it counts
at its end. -/
theorem log_tells_what_happened (source : String) :
    let report := Report.ofSource source
    let log := report.log (some .trace)
    let count := (lines source).countP isCode
    match Scan.ofSource source, report.outcome with
    | .halted scan fault, outcome =>
      outcome = .error fault ∧ log = scan.records ∧
        ∃ read lexeme rest, lexemes source = read ++ lexeme :: rest ∧
          Scan.step scan lexeme = .halted scan fault ∧ scan.Logged read
    | .running scan, .error fault =>
      scan.Logged (lexemes source) ∧
        ∃ program operands,
          log = scan.records ++
            ⟨.scan, .debug,
              s!"Tokenised {count} instruction(s), {scan.symbols.size} label(s)."⟩ ::
            (program.flatMap Instruction.records ++
              operands.map (Operand.record fault.line)) ∧
          Draft.StopsAt source scan.symbols fault program operands ∧
          program.length = ((lines source).take (fault.line - 1)).countP isCode
    | .running scan, .ok assembly =>
      scan.Logged (lexemes source) ∧ assembly.symbols = scan.symbols ∧
        log = scan.records ++
          ⟨.scan, .debug,
            s!"Tokenised {count} instruction(s), {assembly.symbols.size} label(s)."⟩ ::
          (assembly.program.flatMap Instruction.records ++
            [⟨.assembly, .info, s!"Assembled {count} instruction(s)."⟩]) ∧
        assembly.program.length = count := by
  intro report log count
  have hlog : log = report.events.toList.map Event.record := report.log_trace
  rw [hlog]
  cases hscan : Scan.ofSource source with
  | halted scan fault =>
      have hreport : report = ⟨scan.events, .error fault⟩ := by
        simp only [report, Report.ofSource, hscan]
      rw [hreport]
      exact ⟨rfl, rfl, Scan.exists_logged_of_halted hscan⟩
  | running scan =>
      have hlogged : scan.Logged (lexemes source) := Scan.logged_of_run hscan
      have haddress : scan.address = count := Scan.address_of_ofSource hscan
      cases hdraft : Draft.ofTokens scan.symbols scan.tokens.toList with
      | halted draft fault =>
          have hreport : report =
              ⟨scan.events.push (.scanned count scan.symbols.size) ++ draft.events,
                .error fault⟩ := by
            simp only [report, Report.ofSource, hscan, Report.ofScan, hdraft, haddress]
          obtain ⟨program, operands, hstops, hrecords⟩ :=
            Draft.exists_log_of_halted hscan hdraft
          rw [hreport]
          refine ⟨hlogged, program, operands, ?_, hstops, ?_⟩
          · rw [← hrecords]
            simp [Scan.records, Draft.records]
          · rw [← hstops.program.length_eq, length_codeLines, lines_front]
      | running draft =>
          have hlength : draft.instructions.toList.length = count :=
            Draft.length_of_running hscan hdraft
          have hreport : report =
              ⟨(scan.events.push (.scanned count scan.symbols.size) ++
                  draft.events).push (.assembled count),
                .ok ⟨draft.instructions.toList, scan.symbols,
                  Word.ofProgram scan.symbols draft.instructions.toList⟩⟩ := by
            simp only [report, Report.ofSource, hscan, Report.ofScan, hdraft, haddress,
              hlength]
          rw [hreport]
          refine ⟨hlogged, rfl, ?_, hlength⟩
          dsimp only
          rw [← Draft.log_of_running hscan hdraft]
          simp [Scan.records, Draft.records]

end Pom8
