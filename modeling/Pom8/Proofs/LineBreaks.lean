import Pom8.Proofs.Faults
import Pom8.Proofs.Lookahead

/-!
# Line breaks between statements

A line break that is read leaves no statement under way.  What follows it is
therefore read as if nothing stood before: neither the token that a reader looks
ahead to nor the line that it has reached shows in the instructions or in the
fault.  At the end of the tokens a statement ends, or is found wanting, as it is at
a line break.
-/

namespace Pom8

/-- A fault at the end of the tokens, as it is found when a line break stands
there. -/
def Fault.atLineBreak (lineBreak : Token) : Fault → Fault
  | .unexpected line expected none => .unexpected line expected (some lineBreak)
  | fault => fault

theorem Fault.Concerns.atLineBreak
    {token lineBreak : Token} {fault : Fault} (h : fault.Concerns token) :
    fault.atLineBreak lineBreak = fault := by
  cases h <;> rfl

namespace Draft

/-- The draft of joined tokens: what an earlier draft holds comes first. -/
def join (earlier later : Draft) : Draft where
  instructions := earlier.instructions ++ later.instructions
  statement := later.statement
  events := earlier.events ++ later.events

variable {symbols : SymbolTable}

/-! ## Reading on after a line break -/

theorem close_join (earlier draft : Draft) (statement : Statement) :
    (earlier.join draft).close statement = earlier.join (draft.close statement) := by
  simp [close, join]

/-- What was drafted before plays no part in a step. -/
theorem step_join (earlier draft : Draft) (token : Token) :
    (earlier.join draft).step symbols token =
      (draft.step symbols token).map id earlier.join := by
  have hstatement : (earlier.join draft).statement = draft.statement := rfl
  unfold step
  rw [hstatement]
  rcases draft.statement with _ | statement
  · rcases Statement.start token with fault | statement
    · rfl
    · rfl
  · dsimp only
    by_cases hclose : token.kind = .newline ∧ statement.isComplete = true
    · rw [if_pos hclose, if_pos hclose, close_join]
      rfl
    · rw [if_neg hclose, if_neg hclose]
      rcases statement.take symbols token with fault | ⟨operand, grown⟩
      · rfl
      · simp [Progress.map, join]

theorem finish_join (earlier draft : Draft) :
    (earlier.join draft).finish = draft.finish.map id earlier.join := by
  have hstatement : (earlier.join draft).statement = draft.statement := rfl
  unfold finish
  rw [hstatement]
  rcases draft.statement with _ | statement
  · rfl
  · dsimp only
    by_cases hcomplete : statement.isComplete = true
    · rw [if_pos hcomplete, if_pos hcomplete, close_join]
      rfl
    · rw [if_neg hcomplete, if_neg hcomplete]
      rfl

/-- Between statements, tokens are read as from the start. -/
theorem run_andThen_finish_of_between
    {draft : Draft} (hnone : draft.statement = none) (tokens : List Token) :
    (Progress.run (step symbols) draft tokens).andThen finish =
      (ofTokens symbols tokens).map id draft.join := by
  have hstart : draft.join {} = draft := by
    simp [join, ← hnone]
  have hrun : Progress.run (step symbols) (draft.join {}) (tokens.map id) =
      (Progress.run (step symbols) {} tokens).map id draft.join :=
    Progress.run_map (step_join draft) {} tokens
  rw [List.map_id, hstart] at hrun
  rw [hrun, Progress.map_andThen (finish_join draft), ofTokens]

variable {draft next : Draft} {token : Token}

theorem statement_eq_none_of_step_newline
    (hnewline : token.kind = .newline)
    (h : step symbols draft token = .running next) : next.statement = none := by
  rcases hstatement : draft.statement with _ | statement
  · obtain ⟨statement, hstart, -⟩ := (step_of_none hstatement).mp h
    rw [(Statement.start_eq_ok_iff.mp hstart).1] at hnewline
    cases hnewline
  · obtain ⟨-, rfl⟩ := (step_of_newline hstatement hnewline).mp h
    rfl

/-- Joined tokens with a line break between them are read one part after the
other. -/
theorem ofTokens_append_newline
    {lineBreak : Token} (hbreak : lineBreak.kind = .newline)
    (first second : List Token) :
    ofTokens symbols (first ++ lineBreak :: second) =
      (ofTokens symbols (first ++ [lineBreak])).andThen fun draft =>
        (ofTokens symbols second).map id draft.join := by
  have hjoin : first ++ lineBreak :: second = (first ++ [lineBreak]) ++ second := by
    simp
  rw [hjoin, ofTokens, Progress.run_append]
  rcases hfirst : Progress.run (step symbols) {} (first ++ [lineBreak]) with
    draft | ⟨draft, fault⟩
  · obtain ⟨state, -, hlast⟩ := Progress.run_concat_eq_running_iff.mp hfirst
    have hnone := statement_eq_none_of_step_newline hbreak hlast
    have hfinish : ofTokens symbols (first ++ [lineBreak]) = .running draft :=
      ofTokens_eq_running_iff.mpr
        ⟨draft, hfirst, finish_eq_running_iff.mpr (Or.inl ⟨hnone, rfl⟩)⟩
    rw [hfinish]
    exact run_andThen_finish_of_between hnone second
  · rw [ofTokens, hfirst]
    rfl

/-! ## The end of the tokens -/

/-- A token that ends no line leaves a statement that has reached its line. -/
theorem exists_statement_of_step
    (hnewline : token.kind ≠ .newline)
    (h : step symbols draft token = .running next) :
    ∃ statement, next.statement = some statement ∧
      statement.lastLine = token.line := by
  rcases hstatement : draft.statement with _ | statement
  · obtain ⟨statement, hstart, rfl⟩ := (step_of_none hstatement).mp h
    obtain ⟨-, mnemonic, -, rfl⟩ := Statement.start_eq_ok_iff.mp hstart
    exact ⟨_, rfl, rfl⟩
  · obtain ⟨operand, grown, htake, rfl⟩ := (step_of_operand hstatement hnewline).mp h
    obtain ⟨-, -, -, rfl⟩ := Statement.take_eq_ok_iff.mp htake
    exact ⟨_, rfl, rfl⟩

/-- A line break does to a statement under way what the end of the tokens does. -/
theorem step_newline_eq_finish
    {statement : Statement} (hstatement : draft.statement = some statement)
    (hnewline : token.kind = .newline) (hline : token.line = statement.lastLine) :
    step symbols draft token = draft.finish.map (Fault.atLineBreak token) id := by
  by_cases hcomplete : statement.isComplete = true
  · have hstep : step symbols draft token = .running (draft.close statement) :=
      (step_of_newline hstatement hnewline).mpr ⟨hcomplete, rfl⟩
    have hfinish : draft.finish = .running (draft.close statement) :=
      finish_eq_running_iff.mpr (Or.inr ⟨statement, hstatement, hcomplete, rfl⟩)
    rw [hstep, hfinish]
    rfl
  · have htake : statement.take symbols token =
        .error (.unexpected token.line statement.expectation (some token)) := by
      rw [Statement.take, Operand.ofToken?_of_newline hnewline]
    simp [step, finish, hstatement, hcomplete, htake, hline, Progress.map,
      Fault.atLineBreak]

theorem finish_of_finish_eq_running (h : draft.finish = .running next) :
    next.finish = .running next := by
  apply finish_eq_running_iff.mpr
  rcases finish_eq_running_iff.mp h with ⟨hnone, rfl⟩ | ⟨statement, -, -, rfl⟩
  · exact Or.inl ⟨hnone, rfl⟩
  · exact Or.inl ⟨rfl, rfl⟩

/-- After a token that ends no line, a line break changes nothing but the fault
that the end of the tokens would have been. -/
theorem ofTokens_concat_newline
    {tokens : List Token} {last lineBreak : Token}
    (hlast : tokens.getLast? = some last) (hkind : last.kind ≠ .newline)
    (hbreak : lineBreak.kind = .newline) (hline : lineBreak.line = last.line) :
    ofTokens symbols (tokens ++ [lineBreak]) =
      (ofTokens symbols tokens).map (Fault.atLineBreak lineBreak) id := by
  rw [ofTokens, ofTokens, Progress.run_append]
  rcases hrun : Progress.run (step symbols) {} tokens with draft | ⟨draft, fault⟩
  · obtain ⟨front, rfl⟩ := List.getLast?_eq_some_iff.mp hlast
    obtain ⟨state, -, hstep⟩ := Progress.run_concat_eq_running_iff.mp hrun
    obtain ⟨statement, hstatement, hreached⟩ := exists_statement_of_step hkind hstep
    have hend : step symbols draft lineBreak =
        draft.finish.map (Fault.atLineBreak lineBreak) id :=
      step_newline_eq_finish hstatement hbreak (hline.trans hreached.symm)
    simp only [Progress.andThen, Progress.run_singleton, hend]
    rcases hfinish : draft.finish with next | ⟨next, fault⟩
    · exact finish_of_finish_eq_running hfinish
    · rfl
  · -- A reading that halts within the tokens halts at one of them.
    obtain ⟨token, -, state, hstep⟩ := Progress.exists_step_of_run_eq_halted hrun
    have hconcerns := concerns_of_step_eq_halted hstep
    simp only [Progress.andThen, Progress.map, hconcerns.atLineBreak, id]

/-! ## Readers -/

/-- The ways to read a list of tokens: with all layouts of a statement kept open,
or with its layout settled by a token of lookahead. -/
def readers (symbols : SymbolTable) : List (List Token → Progress Fault Draft) :=
  [ofTokens symbols, readAhead symbols {}]

theorem readAhead_mem_readers (symbols : SymbolTable) :
    readAhead symbols {} ∈ readers symbols :=
  List.mem_cons_of_mem _ List.mem_cons_self

theorem outcome_of_mem_readers
    {read : List Token → Progress Fault Draft} (h : read ∈ readers symbols)
    (tokens : List Token) :
    outcome (read tokens) = outcome (ofTokens symbols tokens) := by
  simp only [readers, List.mem_cons, List.not_mem_nil, or_false] at h
  rcases h with rfl | rfl
  · rfl
  · exact outcome_readAhead symbols tokens

theorem outcome_map_join (progress : Progress Fault Draft) :
    outcome (progress.map id draft.join) =
      (outcome progress).map (draft.instructions.toList ++ ·) := by
  rcases progress with later | ⟨later, fault⟩
  · simp [outcome, Progress.map, Progress.toExcept, Except.map, join]
  · rfl

theorem outcome_map_fault
    (onFault : Fault → Fault) (progress : Progress Fault Draft) :
    outcome (progress.map onFault id) = (outcome progress).mapError onFault := by
  rcases progress with draft | ⟨draft, fault⟩
  · rfl
  · rfl

end Draft

/-- Lines are read independently.  A fault up to a line break stands whatever
follows; otherwise what follows is read as if it stood alone, and its instructions
come after those before the line break. -/
theorem lines_are_read_independently
    (symbols : SymbolTable) (first second : List Token)
    {lineBreak : Token} (hbreak : lineBreak.kind = .newline) :
    ∀ read ∈ Draft.readers symbols,
      (∀ fault, Draft.outcome (read (first ++ [lineBreak])) = .error fault →
        Draft.outcome (read (first ++ [lineBreak] ++ second)) = .error fault) ∧
      ∀ program, Draft.outcome (read (first ++ [lineBreak])) = .ok program →
        Draft.outcome (read (first ++ [lineBreak] ++ second)) =
          (Draft.outcome (read second)).map (program ++ ·) := by
  intro read hread
  simp only [Draft.outcome_of_mem_readers hread, List.append_assoc,
    List.singleton_append, Draft.ofTokens_append_newline hbreak first second]
  rcases Draft.ofTokens symbols (first ++ [lineBreak]) with draft | ⟨draft, fault⟩
  · refine ⟨fun fault h => ?_, fun program h => ?_⟩
    · cases h
    · obtain rfl := Except.ok.inj h
      exact Draft.outcome_map_join _
  · exact ⟨fun other h => h, fun program h => by cases h⟩

/-- A reader that looks past the line break sees a number there, and yet the fault
is that of the first line; after a line without a fault, the fault of the second
line is found. -/
theorem lines_are_read_independently_lookahead :
    Draft.outcome (Draft.readAhead SymbolTable.empty {}
        ([⟨⟨"addi", 1⟩, .mnemonic, by decide⟩] ++ [Token.lineBreak 1] ++
          [⟨⟨"5", 2⟩, .decimal, by decide⟩])) =
      .error (.unexpected 1 (.operand .register) (some (Token.lineBreak 1))) ∧
    Draft.outcome (Draft.readAhead SymbolTable.empty {}
        ([⟨⟨"nop", 1⟩, .mnemonic, by decide⟩] ++ [Token.lineBreak 1] ++
          [⟨⟨"5", 2⟩, .decimal, by decide⟩])) =
      .error (.unexpected 2 .mnemonic (some ⟨⟨"5", 2⟩, .decimal, by decide⟩)) := by
  have hread := Draft.readAhead_mem_readers SymbolTable.empty
  constructor
  · apply (lines_are_read_independently _ _ _ rfl _ hread).1
    decide +kernel
  · have hfirst : Draft.outcome (Draft.readAhead SymbolTable.empty {}
        ([⟨⟨"nop", 1⟩, .mnemonic, by decide⟩] ++ [Token.lineBreak 1])) =
          .ok [{ mnemonic := .nop, operands := [], line := 1 }] := by
      decide +kernel
    rw [(lines_are_read_independently _ _ _ rfl _ hread).2 _ hfirst]
    decide +kernel

/-- The last line break is implied.  With it, the same program is read or the same
fault is found, except that a statement that the end of the input cuts short is
cut short by the line break, on the same line and with the same call. -/
theorem last_line_break_is_implied
    (symbols : SymbolTable) {tokens : List Token} {last lineBreak : Token}
    (hlast : tokens.getLast? = some last) (hkind : last.kind ≠ .newline)
    (hbreak : lineBreak.kind = .newline) (hline : lineBreak.line = last.line) :
    (∀ read ∈ Draft.readers symbols,
      Draft.outcome (read (tokens ++ [lineBreak])) =
        (Draft.outcome (read tokens)).mapError (Fault.atLineBreak lineBreak)) ∧
      Fault.foundName none = "end of input" ∧
        Fault.foundName (some lineBreak) = "NEWLINE" := by
  refine ⟨fun read hread => ?_, rfl, ?_⟩
  · rw [Draft.outcome_of_mem_readers hread, Draft.outcome_of_mem_readers hread,
      Draft.ofTokens_concat_newline hlast hkind hbreak hline,
      Draft.outcome_map_fault]
  · simp [Fault.foundName, Token.display, hbreak, Token.Kind.name]

/-- A statement that lacks its second operand, with and without its line break. -/
theorem last_line_break_is_implied_cut_short :
    Draft.outcome (Draft.readAhead SymbolTable.empty {}
        [⟨⟨"nop", 1⟩, .mnemonic, by decide⟩, Token.lineBreak 1,
          ⟨⟨"subi", 2⟩, .mnemonic, by decide⟩, ⟨⟨"r1", 2⟩, .register, by decide⟩]) =
      .error (.unexpected 2 (.operand .register) none) ∧
    Draft.outcome (Draft.readAhead SymbolTable.empty {}
        ([⟨⟨"nop", 1⟩, .mnemonic, by decide⟩, Token.lineBreak 1,
          ⟨⟨"subi", 2⟩, .mnemonic, by decide⟩, ⟨⟨"r1", 2⟩, .register, by decide⟩] ++
            [Token.lineBreak 2])) =
      .error (.unexpected 2 (.operand .register) (some (Token.lineBreak 2))) := by
  have hread := Draft.readAhead_mem_readers SymbolTable.empty
  have hend : Draft.outcome (Draft.readAhead SymbolTable.empty {}
      [⟨⟨"nop", 1⟩, .mnemonic, by decide⟩, Token.lineBreak 1,
        ⟨⟨"subi", 2⟩, .mnemonic, by decide⟩, ⟨⟨"r1", 2⟩, .register, by decide⟩]) =
        .error (.unexpected 2 (.operand .register) none) := by
    decide +kernel
  refine ⟨hend, ((@last_line_break_is_implied SymbolTable.empty _
    ⟨⟨"r1", 2⟩, .register, by decide⟩ (Token.lineBreak 2) rfl (by decide) rfl rfl).1
      _ hread).trans ?_⟩
  rw [hend]
  rfl

end Pom8
