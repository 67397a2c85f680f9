import Pom8.Proofs.Lookahead

/-!
# The token lists of programs

A list of tokens is read as a program exactly when it falls into groups, one for
each instruction: a mnemonic, operands in the slots of one of its layouts, and a
line break, which the last group can do without.  There is only one way to group
the tokens.
-/

namespace Pom8

namespace Draft

/-- Tokens in groups that write the instructions of a program, one after the
other.  Only the last group can lack its line break. -/
inductive Grouped (symbols : SymbolTable) :
    List Token → List (List Token × Option Token) → List Instruction → Prop
  | nil : Grouped symbols [] [] []
  | last {body : List Token} {instruction : Instruction} :
      Instruction.Written symbols body instruction →
        Grouped symbols body [(body, none)] [instruction]
  | cons {body rest : List Token} {lineBreak : Token}
      {groups : List (List Token × Option Token)}
      {instruction : Instruction} {program : List Instruction} :
      Instruction.Written symbols body instruction → lineBreak.kind = .newline →
        Grouped symbols rest groups program →
          Grouped symbols (body ++ lineBreak :: rest)
            ((body, some lineBreak) :: groups) (instruction :: program)

/-! ## One way to group tokens -/

/-- Two lists that are split at their first line break are split alike. -/
theorem eq_of_append_newline_eq
    {body body' rest rest' : List Token} {lineBreak lineBreak' : Token}
    (hbody : ∀ token ∈ body, token.kind ≠ .newline)
    (hbody' : ∀ token ∈ body', token.kind ≠ .newline)
    (hbreak : lineBreak.kind = .newline) (hbreak' : lineBreak'.kind = .newline)
    (h : body ++ lineBreak :: rest = body' ++ lineBreak' :: rest') :
    body = body' ∧ lineBreak = lineBreak' ∧ rest = rest' := by
  induction body generalizing body' with
  | nil =>
      cases body' with
      | nil => simpa using h
      | cons token tokens =>
          obtain rfl : lineBreak = token := (List.cons.inj h).1
          exact absurd hbreak (hbody' lineBreak List.mem_cons_self)
  | cons token tokens ih =>
      cases body' with
      | nil =>
          obtain rfl : token = lineBreak' := (List.cons.inj h).1
          exact absurd hbreak' (hbody token List.mem_cons_self)
      | cons token' tokens' =>
          rw [List.forall_mem_cons] at hbody hbody'
          obtain ⟨rfl, htail⟩ := List.cons.inj h
          obtain ⟨rfl, hrest⟩ := ih hbody.2 hbody'.2 htail
          exact ⟨rfl, hrest⟩

theorem not_written_nil
    {symbols : SymbolTable} {instruction : Instruction} :
    ¬Instruction.Written symbols [] instruction := by
  rintro ⟨⟩

variable {symbols : SymbolTable} {tokens : List Token}
  {groups : List (List Token × Option Token)} {program : List Instruction}

/-- Tokens can be grouped in one way at most, and then write one program. -/
theorem Grouped.unique
    (h : Grouped symbols tokens groups program)
    {groups' : List (List Token × Option Token)} {program' : List Instruction}
    (h' : Grouped symbols tokens groups' program') :
    groups = groups' ∧ program = program' := by
  induction h generalizing groups' program' with
  | nil =>
      generalize htokens : ([] : List Token) = tokens at h'
      cases h' with
      | nil => exact ⟨rfl, rfl⟩
      | last hwritten =>
          subst htokens
          exact absurd hwritten not_written_nil
      | cons => simp at htokens
  | @last body instruction hwritten =>
      generalize htokens : body = tokens at h'
      cases h' with
      | nil =>
          subst htokens
          exact absurd hwritten not_written_nil
      | last hwritten' =>
          subst htokens
          rw [hwritten.unique hwritten']
          exact ⟨rfl, rfl⟩
      | @cons body' rest lineBreak _ _ _ _ hbreak _ =>
          -- A single statement has no line break in it.
          have hmem : lineBreak ∈ body := by simp [htokens]
          exact absurd hbreak (hwritten.kind_ne_newline lineBreak hmem)
  | @cons body rest lineBreak _ _ _ hwritten hbreak _ ih =>
      generalize htokens : body ++ lineBreak :: rest = tokens at h'
      cases h' with
      | nil => simp at htokens
      | last hwritten' =>
          have hmem : lineBreak ∈ tokens := by simp [← htokens]
          exact absurd hbreak (hwritten'.kind_ne_newline lineBreak hmem)
      | cons hwritten' hbreak' hgrouped =>
          obtain ⟨rfl, rfl, rfl⟩ := eq_of_append_newline_eq hwritten.kind_ne_newline
            hwritten'.kind_ne_newline hbreak hbreak' htokens
          obtain ⟨rfl, rfl⟩ := ih hgrouped
          rw [hwritten.unique hwritten']
          exact ⟨rfl, rfl⟩

/-! ## Drafts of grouped tokens -/

theorem Grouped.joinGroups_append
    {closed : List (List Token × Token)} {first : List Instruction}
    (hbreaks : ∀ group ∈ closed, group.2.kind = .newline)
    (hwritten : List.Forall₂ (Instruction.Written symbols)
      (closed.map Prod.fst) first)
    (h : Grouped symbols tokens groups program) :
    Grouped symbols (joinGroups closed ++ tokens)
      (closed.map (fun group => (group.1, some group.2)) ++ groups)
      (first ++ program) := by
  induction closed generalizing first with
  | nil =>
      obtain rfl := List.forall₂_nil_left_iff.mp hwritten
      exact h
  | cons group rest ih =>
      rw [List.forall_mem_cons] at hbreaks
      obtain ⟨instruction, others, hfirst, hrest, rfl⟩ :=
        List.forall₂_cons_left_iff.mp hwritten
      have hgrouped := Grouped.cons hfirst hbreaks.1 (ih hbreaks.2 hrest)
      simpa [joinGroups] using hgrouped

/-- What is read as a program can be grouped. -/
theorem exists_grouped_of_ofTokens
    {draft : Draft} (h : ofTokens symbols tokens = .running draft) :
    ∃ groups, Grouped symbols tokens groups draft.instructions.toList := by
  obtain ⟨last, hrun, hfinish⟩ := ofTokens_eq_running_iff.mp h
  obtain ⟨closed, rest, rfl, hbreaks, hwritten, hopen⟩ := covers_of_run hrun
  rcases finish_eq_running_iff.mp hfinish with
    ⟨hnone, rfl⟩ | ⟨statement, hsome, hcomplete, rfl⟩
  · rw [hnone] at hopen
    cases hopen
    have hgrouped := Grouped.joinGroups_append hbreaks hwritten .nil
    rw [List.append_nil draft.instructions.toList] at hgrouped
    exact ⟨_, hgrouped⟩
  · rw [hsome] at hopen
    cases hopen with
    | within hbegun =>
        have hgrouped := Grouped.joinGroups_append hbreaks hwritten
          (.last (hbegun.written hcomplete))
        rw [close, Array.toList_push]
        exact ⟨_, hgrouped⟩

/-- What can be grouped is read to its end. -/
theorem Grouped.exists_finish
    (h : Grouped symbols tokens groups program) {draft : Draft}
    (hnone : draft.statement = none) :
    ∃ next, (Progress.run (step symbols) draft tokens).andThen finish =
      .running next := by
  induction h generalizing draft with
  | nil => exact ⟨draft, finish_eq_running_iff.mpr (Or.inl ⟨hnone, rfl⟩)⟩
  | last hwritten =>
      cases hwritten with
      | @statement head operands mnemonic layout _ hkind hname hlayout hfilled
          hoperands =>
          obtain ⟨next, statement, hrun, hstatement, hbegun⟩ :=
            exists_run_eq_running_of_filledBy hkind hname
              (show layout ++ [] ∈ mnemonic.layouts by rwa [List.append_nil])
              hfilled hoperands hnone
          obtain rfl := Option.some.inj (hname.symm.trans hbegun.mnemonic)
          have hcomplete := hbegun.isComplete_iff.mpr ⟨layout, hlayout, hfilled⟩
          refine ⟨next.close statement, ?_⟩
          rw [hrun]
          exact finish_eq_running_iff.mpr
            (Or.inr ⟨statement, hstatement, hcomplete, rfl⟩)
  | @cons body rest lineBreak _ _ _ hwritten hbreak _ ih =>
      obtain ⟨middle, hgroup, hmiddle⟩ :=
        exists_run_eq_running_of_written hwritten hbreak hnone
      obtain ⟨next, hnext⟩ := ih hmiddle
      refine ⟨next, ?_⟩
      rw [← List.singleton_append, ← List.append_assoc, Progress.run_append, hgroup]
      exact hnext

theorem exists_ofTokens_iff_grouped :
    (∃ draft, ofTokens symbols tokens = .running draft ∧
        draft.instructions.toList = program) ↔
      ∃ groups, Grouped symbols tokens groups program := by
  constructor
  · rintro ⟨draft, hdraft, rfl⟩
    exact exists_grouped_of_ofTokens hdraft
  · rintro ⟨groups, hgrouped⟩
    obtain ⟨draft, hdraft⟩ := hgrouped.exists_finish
      (show ({} : Draft).statement = none from rfl)
    obtain ⟨groups', hgrouped'⟩ := exists_grouped_of_ofTokens hdraft
    exact ⟨draft, hdraft, (hgrouped'.unique hgrouped).2⟩

end Draft

/-! ## The whole reading -/

/-- What statements call for. -/
theorem Expectation.name_mem (expected : Expectation) :
    expected.name ∈ ["MNEMONIC", "REGISTER", "DECIMAL/HEXADECIMAL/BINARY",
      "MNEMONIC/HEXADECIMAL", "end of line"] := by
  cases expected with
  | operand slot => cases slot <;> decide
  | _ => decide

/-- A list of tokens is read as a program exactly when it falls into groups that
write its instructions, which it does in one way at most.  The layouts are those
of the grammar; a reader that settles them by one token of lookahead has the same
outcome; and what fits a slot writes an operand, so that no fault calls for one. -/
theorem draft_reads_exactly_grouped_tokens
    (symbols : SymbolTable) (tokens : List Token) :
    (∀ program,
      (∃ draft, Draft.ofTokens symbols tokens = .running draft ∧
          draft.instructions.toList = program) ↔
        ∃ groups, Draft.Grouped symbols tokens groups program) ∧
    (∀ groups groups' program program',
      Draft.Grouped symbols tokens groups program →
        Draft.Grouped symbols tokens groups' program' →
          groups = groups' ∧ program = program') ∧
    (∀ mnemonic layout,
      layout ∈ Mnemonic.layouts mnemonic ↔ Grammar.Allows mnemonic layout) ∧
    Draft.outcome (Draft.readAhead symbols {} tokens) =
      Draft.outcome (Draft.ofTokens symbols tokens) ∧
    (∀ slot token, Slot.accepts slot (Token.kind token) = true →
      ∃ operand, Operand.ofToken? token = some operand) ∧
    ∀ draft line expected found,
      Draft.ofTokens symbols tokens =
          .halted draft (.unexpected line expected found) →
        expected.name ≠ "an operand" := by
  refine ⟨fun program => Draft.exists_ofTokens_iff_grouped, ?_,
    fun mnemonic layout => Grammar.allows_iff.symm,
    Draft.outcome_readAhead symbols tokens,
    fun slot token h => Operand.exists_ofToken?_of_accepts h, ?_⟩
  · intro groups groups' program program' h h'
    exact h.unique h'
  · intro draft line expected found _ hname
    have hmem := expected.name_mem
    rw [hname] at hmem
    exact absurd hmem (by decide)

end Pom8
