import Pom8.Proofs.Linking

/-!
# Which fault is reported

A source is scanned as a whole before its statements are read, and both go line
by line.  A fault of the scan therefore depends on nothing after its line, and a
fault of a statement on nothing after its line but the names of the labels.
-/

namespace Pom8

/-! ## Lines up to a fault -/

namespace Source

/-- Two sources whose first lines hold the same items, line by line. -/
def AgreeUpTo (count : Nat) (first second : String) : Prop :=
  ((lines first).take count).map items = ((lines second).take count).map items

/-- The text of the first lines of a source. -/
def front (count : Nat) (source : String) : String :=
  ofLines ((lines source).take count)

/-- A part of a numbered line that depends on its items only. -/
def OfItems {α : Type} (part : List Char × Nat → List α) : Prop :=
  ∀ first second number, items first = items second →
    part (first, number) = part (second, number)

theorem lineBreak_not_mem_of_mem_splitOnP
    {characters line : List Char}
    (h : line ∈ characters.splitOnP (· == '\n')) : '\n' ∉ line := by
  intro hbreak
  exact absurd (eq_false_of_mem_splitOnP h hbreak) (by decide)

theorem lineBreak_not_mem_of_mem_lines
    {source : String} {line : List Char} (h : line ∈ lines source) :
    '\n' ∉ line := by
  have hsegment : line ∈ segments source := by
    rcases segments_eq source with hsegments | hsegments
    · rwa [hsegments]
    · rw [hsegments]
      exact List.mem_append_left _ h
  exact lineBreak_not_mem_of_mem_splitOnP hsegment

theorem lines_front (count : Nat) (source : String) :
    lines (front count source) = (lines source).take count :=
  lines_ofLines fun _ hline =>
    lineBreak_not_mem_of_mem_lines (List.mem_of_mem_take hline)

theorem flatMap_zipIdx_congr
    {α : Type} {part : List Char × Nat → List α} (hpart : OfItems part)
    {first second : List (List Char)} (h : first.map items = second.map items)
    (number : Nat) :
    (first.zipIdx number).flatMap part = (second.zipIdx number).flatMap part := by
  induction first generalizing second number with
  | nil =>
      rw [List.map_nil, eq_comm, List.map_eq_nil_iff] at h
      rw [h]
  | cons line rest ih =>
      rw [List.map_cons, eq_comm, List.map_eq_cons_iff] at h
      obtain ⟨line', rest', rfl, hline, hrest⟩ := h
      rw [List.zipIdx_cons, List.zipIdx_cons, List.flatMap_cons, List.flatMap_cons,
        hpart line line' number hline.symm, ih hrest.symm]

/-- The first lines of a source begin what is read of every source that agrees
with it up to them. -/
theorem exists_flatMap_numberedLines_eq
    {α : Type} {part : List Char × Nat → List α} (hpart : OfItems part)
    {count : Nat} {source other : String} (h : AgreeUpTo count source other) :
    ∃ rest, (numberedLines other).flatMap part =
      (((lines source).take count).zipIdx 1).flatMap part ++ rest := by
  refine ⟨(((lines other).drop count).zipIdx
    (1 + ((lines other).take count).length)).flatMap part, ?_⟩
  rw [flatMap_zipIdx_congr hpart h, ← List.flatMap_append, ← List.zipIdx_append,
    List.take_append_drop]
  rfl

section Lines

variable {σ ε α : Type} {step : σ → α → Progress ε σ}
  {part : List Char × Nat → List α} {source : String}
  {start last : σ} {fault : ε}

/-- A reading that goes line by line halts on one of the lines, after it has read
those before it. -/
theorem exists_line_of_run_eq_halted
    (h : Progress.run step start ((numberedLines source).flatMap part) =
      .halted last fault) :
    ∃ before line after state, lines source = before ++ line :: after ∧
      Progress.run step start ((before.zipIdx 1).flatMap part) = .running state ∧
        Progress.run step state (part (line, before.length + 1)) =
          .halted last fault := by
  obtain ⟨front, ⟨line, number⟩, rest, state, hsplit, hfront, hline⟩ :=
    Progress.exists_block_of_run_eq_halted h
  obtain ⟨before, other, hlines, rfl, hrest⟩ := List.zipIdx_eq_append_iff.mp hsplit
  obtain ⟨text, after, rfl, hnumber, -⟩ := List.zipIdx_eq_cons_iff.mp hrest.symm
  obtain ⟨rfl, rfl⟩ := Prod.mk.inj hnumber
  rw [Nat.add_comm] at hline
  exact ⟨before, line, after, state, hlines, hfront, hline⟩

/-- A reading that goes line by line halts in the same way on every source that
agrees up to the line on which it halts. -/
theorem run_eq_halted_of_agreeUpTo
    (hpart : OfItems part) {before after : List (List Char)} {line : List Char}
    {state : σ} (hlines : lines source = before ++ line :: after)
    (hbefore : Progress.run step start ((before.zipIdx 1).flatMap part) =
      .running state)
    (hline : Progress.run step state (part (line, before.length + 1)) =
      .halted last fault)
    {other : String} (h : AgreeUpTo (before.length + 1) source other) :
    Progress.run step start ((numberedLines other).flatMap part) =
      .halted last fault := by
  obtain ⟨rest, hrest⟩ := exists_flatMap_numberedLines_eq hpart h
  have htake : (lines source).take (before.length + 1) = before ++ [line] := by
    rw [hlines, List.take_length_add_append]
    rfl
  have hread : Progress.run step start
      (((before ++ [line]).zipIdx 1).flatMap part) = .halted last fault := by
    rw [List.zipIdx_append, List.flatMap_append, Progress.run_append, hbefore,
      List.zipIdx_singleton, List.flatMap_singleton, Nat.add_comm]
    exact hline
  rw [hrest, htake]
  exact Progress.run_append_of_halted hread rest

theorem mem_numberedLines_of_lines_eq
    {before after : List (List Char)} {line : List Char}
    (h : lines source = before ++ line :: after) :
    (line, before.length + 1) ∈ numberedLines source := by
  rw [numberedLines, h, List.zipIdx_append, Nat.add_comm]
  exact List.mem_append_right _ List.mem_cons_self

end Lines

end Source

/-! ## Faults of a scan -/

/-- Whether a fault is one that a scan can halt at: an item without a kind, or a
label that is defined twice. -/
def Fault.isLexical : Fault → Bool
  | unrecognised .. | duplicateLabel .. => true
  | unknownMnemonic .. | unexpected .. | outOfRange .. | undefinedLabel .. => false

namespace Scan

open Source

/-- A scan halts at a lexeme without a kind, or at a label that it has defined
already. -/
theorem halted_cases_of_step
    {scan last : Scan} {lexeme : Lexeme} {fault : Fault}
    (h : step scan lexeme = .halted last fault) :
    (Token.Kind.ofText? lexeme.text = none ∧
        fault = .unrecognised lexeme.line lexeme.text) ∨
      ∃ label first, labelOf? lexeme = some label ∧
        scan.symbols.find? label.text = some first ∧
          fault = .duplicateLabel label.line label.text first.line := by
  cases hkind : Token.Kind.ofText? lexeme.text with
  | none =>
      left
      have hnone := Token.ofLexeme?_eq_none_iff.mpr hkind
      rw [step, Token.ofLexeme, hnone] at h
      exact ⟨rfl, (Progress.halted.inj h).2.symm⟩
  | some kind =>
      right
      cases hlabel : labelOf? lexeme with
      | some label =>
          rw [step_of_labelOf?_eq_some hlabel] at h
          split at h
          next other hdefine =>
            obtain ⟨-, rfl⟩ := Progress.halted.inj h
            obtain ⟨first, hfirst, rfl⟩ := SymbolTable.define_eq_error_iff.mp hdefine
            exact ⟨label, first, rfl, hfirst, rfl⟩
          next => cases h
      | none =>
          have hne : kind ≠ .label := by
            rintro rfl
            have hshape := Token.Kind.admits_of_ofText?_eq_some hkind
            exact absurd hlabel (by simp [labelOf?, show Token.isLabel _ = true from hshape])
          obtain ⟨next, hnext, -⟩ := exists_step_of_kind hkind hne scan
          rw [hnext] at h
          cases h

/-- A label is its lexeme without the colon. -/
theorem eq_of_labelOf?_eq_some
    {lexeme label : Lexeme} (h : labelOf? lexeme = some label) :
    lexeme.text.toList = label.text.toList ++ [':'] ∧ label.line = lexeme.line := by
  unfold labelOf? at h
  split at h
  next hshape =>
    obtain rfl := Option.some.inj h
    obtain ⟨name, hname, -⟩ := Token.isLabel_iff.mp hshape
    simp [labelName, hname]
  next => cases h

/-- A scan halts at a lexical fault, on the line of the lexeme it has reached. -/
theorem lexical_of_step_eq_halted
    {scan last : Scan} {lexeme : Lexeme} {fault : Fault}
    (h : step scan lexeme = .halted last fault) :
    fault.isLexical = true ∧ fault.line = lexeme.line := by
  rcases halted_cases_of_step h with ⟨-, rfl⟩ | ⟨label, first, hlabel, -, rfl⟩
  · exact ⟨rfl, rfl⟩
  · exact ⟨rfl, (eq_of_labelOf?_eq_some hlabel).2⟩

theorem line_of_mem_lineLexemes
    {line : List Char} {number : Nat} {lexeme : Lexeme}
    (h : lexeme ∈ lineLexemes line number) : lexeme.line = number := by
  rw [lineLexemes, List.mem_append, List.mem_map, List.mem_singleton] at h
  rcases h with ⟨item, -, rfl⟩ | rfl
  · rfl
  · rfl

theorem ofItems_lineLexemes :
    OfItems fun line => lineLexemes line.1 line.2 := by
  intro first second number h
  simp only [lineLexemes, h]

/-- What a lexical fault depends on: the lines before it can be scanned, and the
lines after it play no part. -/
structure HaltsFirstAt (source : String) (fault : Fault) : Prop where
  kind : fault.isLexical = true
  before : ∃ scan, ofSource (front (fault.line - 1) source) = .running scan
  stable : ∀ other, AgreeUpTo fault.line source other →
    assemble other = .error fault

theorem haltsFirstAt_of_ofSource_eq_halted
    {source : String} {last : Scan} {fault : Fault}
    (h : ofSource source = .halted last fault) :
    (∃ line, (line, fault.line) ∈ numberedLines source) ∧
      HaltsFirstAt source fault := by
  obtain ⟨before, line, after, scan, hlines, hbefore, hline⟩ :=
    exists_line_of_run_eq_halted h
  obtain ⟨lexeme, hlexeme, state, hstep⟩ :=
    Progress.exists_step_of_run_eq_halted hline
  obtain ⟨hkind, hnumber⟩ := lexical_of_step_eq_halted hstep
  rw [line_of_mem_lineLexemes hlexeme] at hnumber
  refine ⟨⟨line, ?_⟩, ⟨hkind, ⟨scan, ?_⟩, ?_⟩⟩
  · rw [hnumber]
    exact mem_numberedLines_of_lines_eq hlines
  · have hfront : lines (front (fault.line - 1) source) = before := by
      rw [lines_front, hnumber, hlines, Nat.add_sub_cancel, List.take_left]
    rw [ofSource, lexemes, hfront]
    exact hbefore
  · intro other hother
    rw [hnumber] at hother
    exact assemble_eq_error_iff.mpr (Or.inl ⟨last,
      run_eq_halted_of_agreeUpTo ofItems_lineLexemes hlines hbefore hline hother⟩)

end Scan

/-! ## Faults of statements -/

/-- The faults that a token can have in a statement. -/
inductive Fault.Concerns (token : Token) : Fault → Prop
  | mnemonic : Concerns token (.unknownMnemonic token.line (Text.upper token.text))
  | place (expected : Expectation) :
      Concerns token (.unexpected token.line expected (some token))
  | range : Concerns token (.outOfRange token.line token.text token.kind)
  | label : Concerns token (.undefinedLabel token.line token.text)

namespace Fault.Concerns

variable {token : Token} {fault : Fault}

theorem line_eq (h : fault.Concerns token) : fault.line = token.line := by
  cases h <;> rfl

theorem isLexical_eq_false (h : fault.Concerns token) : fault.isLexical = false := by
  cases h <;> rfl

end Fault.Concerns

/-- A token that writes a label writes it as it stands. -/
theorem Operand.text_of_ofToken?_eq_label
    {token : Token} {name : String} (h : ofToken? token = some (.label name)) :
    name = token.text := by
  unfold ofToken? at h
  cases hkind : token.kind with
  | mnemonic =>
      rw [hkind] at h
      exact (Operand.label.inj (Option.some.inj h)).symm
  | decimal =>
      rw [hkind] at h
      dsimp only at h
      split at h <;> cases h
  | register | hexadecimal | binary | label | comment | newline =>
      rw [hkind] at h
      cases h

namespace Statement

variable {token : Token} {fault : Fault}

/-- A token starts no statement because it names no mnemonic, or because it is no
name at all. -/
theorem error_cases_of_start (h : start token = .error fault) :
    fault = .unknownMnemonic token.line (Text.upper token.text) ∨
      fault = .unexpected token.line .mnemonic (some token) := by
  unfold start at h
  split at h
  · split at h
    · cases h
    · exact Or.inl (Except.error.inj h).symm
  · exact Or.inr (Except.error.inj h).symm

theorem concerns_of_start (h : start token = .error fault) : fault.Concerns token := by
  rcases error_cases_of_start h with rfl | rfl
  · exact .mnemonic
  · exact .place .mnemonic

/-- A token is refused because no slot takes it, because its number lies outside
its range, or because it names no label. -/
theorem error_cases_of_take
    {symbols : SymbolTable} {statement : Statement}
    (h : statement.take symbols token = .error fault) :
    fault = .unexpected token.line statement.expectation (some token) ∨
      token.kind ≠ .newline ∧
        (fault = .outOfRange token.line token.text token.kind ∨
          symbols.contains token.text = false ∧
            fault = .undefinedLabel token.line token.text) := by
  unfold take at h
  split at h
  next operand layout layouts hoperand _ =>
    split at h
    · cases h
    next hvalid =>
      right
      have hnewline : token.kind ≠ .newline := by
        intro hnewline
        rw [Operand.ofToken?_of_newline hnewline] at hoperand
        cases hoperand
      refine ⟨hnewline, ?_⟩
      obtain rfl := Except.error.inj h
      cases operand with
      | label name =>
          right
          obtain rfl := Operand.text_of_ofToken?_eq_label hoperand
          exact ⟨Bool.eq_false_iff.mpr hvalid, rfl⟩
      | register index => exact Or.inl rfl
      | immediate value radix => exact Or.inl rfl
  next =>
    exact Or.inl (Except.error.inj h).symm

theorem concerns_of_take
    {symbols : SymbolTable} {statement : Statement}
    (h : statement.take symbols token = .error fault) : fault.Concerns token := by
  rcases error_cases_of_take h with rfl | ⟨-, rfl | ⟨-, rfl⟩⟩
  · exact .place statement.expectation
  · exact .range
  · exact .label

/-- What a table says about a statement depends on the names it holds. -/
theorem take_congr
    {first second : SymbolTable}
    (h : ∀ name, first.contains name = second.contains name) :
    take first = take second := by
  have hvalid : ∀ operand : Operand,
      operand.isValid first = operand.isValid second := by
    intro operand
    cases operand with
    | label name => exact h name
    | register index => rfl
    | immediate value radix => rfl
  funext statement token
  simp only [take, hvalid]

end Statement

namespace Draft

open Source

/-- A draft halts at a token that starts no statement, or that the statement under
way refuses. -/
theorem halted_cases_of_step
    {symbols : SymbolTable} {draft last : Draft} {token : Token} {fault : Fault}
    (h : step symbols draft token = .halted last fault) :
    draft.statement = none ∧ Statement.start token = .error fault ∨
      ∃ statement, draft.statement = some statement ∧
        statement.take symbols token = .error fault := by
  unfold step at h
  split at h
  next hnone =>
    left
    split at h
    next other hstart =>
      obtain ⟨-, rfl⟩ := Progress.halted.inj h
      exact ⟨hnone, hstart⟩
    next => cases h
  next statement hsome =>
    right
    split at h
    · cases h
    · split at h
      next other htake =>
        obtain ⟨-, rfl⟩ := Progress.halted.inj h
        exact ⟨statement, hsome, htake⟩
      next => cases h

theorem concerns_of_step_eq_halted
    {symbols : SymbolTable} {draft last : Draft} {token : Token} {fault : Fault}
    (h : step symbols draft token = .halted last fault) : fault.Concerns token := by
  rcases halted_cases_of_step h with ⟨-, hstart⟩ | ⟨statement, -, htake⟩
  · exact Statement.concerns_of_start hstart
  · exact Statement.concerns_of_take htake

theorem step_congr
    {first second : SymbolTable}
    (h : ∀ name, first.contains name = second.contains name) :
    step first = step second := by
  funext draft token
  simp only [step, Statement.take_congr h]

theorem line_of_mem_lineTokens
    {line : List Char × Nat} {token : Token} (h : token ∈ lineTokens line) :
    token.line = line.2 := by
  unfold lineTokens at h
  split at h
  · rw [List.mem_append, mem_keptTokens_iff, List.mem_singleton] at h
    rcases h with ⟨item, -, -, hlexeme⟩ | rfl
    · rw [hlexeme]
    · rfl
  · exact absurd h List.not_mem_nil

theorem ofItems_lineTokens : OfItems lineTokens := by
  intro first second number h
  have hcode : isCode first = isCode second := by rw [isCode, isCode, h]
  simp only [lineTokens, hcode, h]

/-- The line break after a line of code leaves no statement under way. -/
theorem statement_eq_none_of_run_lineTokens
    {symbols : SymbolTable} {lines : List (List Char × Nat)} {draft : Draft}
    (h : Progress.run (step symbols) {} (lines.flatMap lineTokens) =
      .running draft) : draft.statement = none := by
  rw [flatMap_lineTokens] at h
  exact ((covers_of_run h).written_of_joinGroups (fun _ => kind_of_mem_lineGroups)
    (fun _ => kind_ne_newline_of_mem_lineGroups)).2

theorem ofTokens_lineTokens
    (symbols : SymbolTable) (lines : List (List Char × Nat)) :
    ofTokens symbols (lines.flatMap lineTokens) =
      Progress.run (step symbols) {} (lines.flatMap lineTokens) := by
  unfold ofTokens
  cases hrun : Progress.run (step symbols) {} (lines.flatMap lineTokens) with
  | halted draft fault => rfl
  | running draft =>
      have hnone := statement_eq_none_of_run_lineTokens hrun
      simp only [Progress.andThen, finish, hnone]

/-- The tokens before a line are those of the lines before it. -/
theorem filter_line_lt_lineTokens
    (before after : List (List Char)) :
    (((before ++ after).zipIdx 1).flatMap lineTokens).filter
        (fun token => token.line < before.length + 1) =
      (before.zipIdx 1).flatMap lineTokens := by
  rw [List.zipIdx_append, List.flatMap_append, List.filter_append]
  have hbefore : ((before.zipIdx 1).flatMap lineTokens).filter
      (fun token => token.line < before.length + 1) =
        (before.zipIdx 1).flatMap lineTokens := by
    rw [List.filter_eq_self]
    intro token htoken
    obtain ⟨line, hline, hmem⟩ := List.mem_flatMap.mp htoken
    have hlt := List.snd_lt_add_of_mem_zipIdx hline
    rw [decide_eq_true_eq, line_of_mem_lineTokens hmem]
    omega
  have hafter : ((after.zipIdx (1 + before.length)).flatMap lineTokens).filter
      (fun token => token.line < before.length + 1) = [] := by
    rw [List.filter_eq_nil_iff]
    intro token htoken
    obtain ⟨line, hline, hmem⟩ := List.mem_flatMap.mp htoken
    have hle := List.le_snd_of_mem_zipIdx hline
    rw [decide_eq_true_eq, line_of_mem_lineTokens hmem]
    omega
  rw [hbefore, hafter, List.append_nil]

/-- What a fault of a statement depends on: the source can be scanned, the line
of the fault has code, the statements before it can be read, and the lines after
it play no part beyond the names of their labels. -/
structure HaltsFirstAt (source : String) (fault : Fault) : Prop where
  kind : fault.isLexical = false
  code : ∃ line, (line, fault.line) ∈ numberedLines source ∧ codeItems line ≠ []
  scanned : ∃ scan, Scan.ofSource source = .running scan ∧
    (∃ draft, ofTokens scan.symbols
        (scan.tokens.toList.filter fun token => token.line < fault.line) =
      .running draft) ∧
    ∀ other next, AgreeUpTo fault.line source other →
      Scan.ofSource other = .running next →
        (∀ name, next.symbols.contains name = scan.symbols.contains name) →
          assemble other = .error fault

theorem haltsFirstAt_of_ofTokens_eq_halted
    {source : String} {scan : Scan} {last : Draft} {fault : Fault}
    (hscan : Scan.ofSource source = .running scan)
    (h : ofTokens scan.symbols scan.tokens.toList = .halted last fault) :
    HaltsFirstAt source fault ∧ ∃ token, fault.Concerns token := by
  have htokens : scan.tokens.toList = (numberedLines source).flatMap lineTokens :=
    (Scan.linesRead_of_ofSource hscan).tokens
  rw [htokens, ofTokens_lineTokens] at h
  obtain ⟨before, line, after, draft, hlines, hbefore, hline⟩ :=
    exists_line_of_run_eq_halted h
  obtain ⟨token, htoken, state, hstep⟩ :=
    Progress.exists_step_of_run_eq_halted hline
  have hconcerns := concerns_of_step_eq_halted hstep
  have hnumber : fault.line = before.length + 1 :=
    hconcerns.line_eq.trans (line_of_mem_lineTokens htoken)
  have hcode : isCode line = true := by
    by_contra hnone
    rw [lineTokens, if_neg hnone] at htoken
    exact absurd htoken List.not_mem_nil
  refine ⟨⟨hconcerns.isLexical_eq_false, ⟨line, ?_, isCode_iff.mp hcode⟩,
    ⟨scan, hscan, ⟨draft, ?_⟩, ?_⟩⟩, token, hconcerns⟩
  · rw [hnumber]
    exact mem_numberedLines_of_lines_eq hlines
  · rw [htokens, numberedLines, hlines, hnumber, filter_line_lt_lineTokens,
      ofTokens_lineTokens]
    exact hbefore
  · intro other next hagree hother hnames
    rw [hnumber] at hagree
    have hhalted := run_eq_halted_of_agreeUpTo ofItems_lineTokens hlines hbefore
      hline hagree
    have htokens' : next.tokens.toList = (numberedLines other).flatMap lineTokens :=
      (Scan.linesRead_of_ofSource hother).tokens
    refine assemble_eq_error_iff.mpr (Or.inr ⟨next, last, hother, ?_⟩)
    rw [htokens', ofTokens_lineTokens, step_congr hnames]
    exact hhalted

end Draft

/-! ## The fault of a source -/

theorem Source.line_bounds_of_mem_numberedLines
    {source : String} {line : List Char × Nat} (h : line ∈ numberedLines source) :
    1 ≤ line.2 ∧ line.2 ≤ (lines source).length := by
  have hlt := List.snd_lt_add_of_mem_zipIdx h
  exact ⟨List.le_snd_of_mem_zipIdx h, by omega⟩

theorem Scan.exists_ofSource_eq_halted_iff {source : String} :
    (∃ scan fault, ofSource source = .halted scan fault) ↔
      (∃ line ∈ Source.lines source, ∃ item ∈ Source.items line,
          ¬Source.Classified item) ∨
        ¬((Source.labelNames source).map Text.lower).Nodup := by
  have hrunning := @exists_ofSource_eq_running_iff source
  cases hscan : ofSource source with
  | running scan =>
      have hfollows := hrunning.mp ⟨scan, hscan⟩
      simp [hfollows.2]
      exact hfollows.1
  | halted scan fault =>
      have hfails := mt hrunning.mpr (by simp [hscan])
      rw [not_and_or] at hfails
      simpa using hfails

theorem Token.display_ne_endOfInput (token : Token) :
    token.display ≠ "end of input" := by
  intro h
  have hhead := congrArg (fun text => text.toList.head?) h
  unfold display at hhead
  cases hkind : token.kind <;>
    simp [hkind, Kind.name, String.toList_append] at hhead

/-- The fault of a source lies on one of its lines and is the first one there is:
a lexical fault comes before all others and depends on the lines up to its own;
any other fault depends on these lines and on the names of the labels.  No
statement of a source is ended by the end of the input. -/
theorem reported_fault_is_first_of_its_stage
    {source : String} {fault : Fault} (h : assemble source = .error fault) :
    (1 ≤ fault.line ∧ fault.line ≤ (Source.lines source).length) ∧
      (Scan.HaltsFirstAt source fault ∨ Draft.HaltsFirstAt source fault) ∧
      (fault.isLexical = true ↔
        (∃ line ∈ Source.lines source, ∃ item ∈ Source.items line,
            ¬Source.Classified item) ∨
          ¬((Source.labelNames source).map Text.lower).Nodup) ∧
      ∀ line expected found, fault = .unexpected line expected found →
        Fault.foundName found ≠ "end of input" := by
  rw [← Scan.exists_ofSource_eq_halted_iff]
  rcases assemble_eq_error_iff.mp h with ⟨scan, hscan⟩ | ⟨scan, draft, hscan, hdraft⟩
  · obtain ⟨⟨line, hline⟩, hfirst⟩ := Scan.haltsFirstAt_of_ofSource_eq_halted hscan
    refine ⟨Source.line_bounds_of_mem_numberedLines hline, Or.inl hfirst, ?_, ?_⟩
    · exact ⟨fun _ => ⟨scan, fault, hscan⟩, fun _ => hfirst.kind⟩
    · rintro line expected found rfl
      exact absurd hfirst.kind Bool.false_ne_true
  · obtain ⟨hfirst, token, hconcerns⟩ :=
      Draft.haltsFirstAt_of_ofTokens_eq_halted hscan hdraft
    obtain ⟨line, hline, -⟩ := hfirst.code
    refine ⟨Source.line_bounds_of_mem_numberedLines hline, Or.inr hfirst, ?_, ?_⟩
    · rw [hfirst.kind, hscan]
      simp
    · rintro line expected found rfl
      cases hconcerns with
      | place => exact token.display_ne_endOfInput

/-- An item without a kind wins over an unknown mnemonic on an earlier line, and
a register out of range over an undefined label on a later one. -/
theorem reported_fault_is_first_of_its_stage_mixed :
    (assemble "foo\nnop\n?\n" = .error (.unrecognised 3 "?") ∧
      Scan.HaltsFirstAt "foo\nnop\n?\n" (.unrecognised 3 "?")) ∧
    assemble "nop\nadd r1, r2, r99\njmp a\n" =
        .error (.outOfRange 2 "r99" .register) ∧
      Draft.HaltsFirstAt "nop\nadd r1, r2, r99\njmp a\n"
        (.outOfRange 2 "r99" .register) := by
  have hitem : assemble "foo\nnop\n?\n" = .error (.unrecognised 3 "?") := by
    decide +kernel
  have hregister : assemble "nop\nadd r1, r2, r99\njmp a\n" =
      .error (.outOfRange 2 "r99" .register) := by
    decide +kernel
  refine ⟨⟨hitem, ?_⟩, hregister, ?_⟩
  · rcases (reported_fault_is_first_of_its_stage hitem).2.1 with hfirst | hfirst
    · exact hfirst
    · exact absurd hfirst.kind (by decide)
  · rcases (reported_fault_is_first_of_its_stage hregister).2.1 with hfirst | hfirst
    · exact absurd hfirst.kind (by decide)
    · exact hfirst

end Pom8
