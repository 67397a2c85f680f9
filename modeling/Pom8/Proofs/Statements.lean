import Pom8.Draft
import Pom8.Proofs.Lists
import Pom8.Proofs.Runs

/-!
# Statements and the tokens that write them

A statement under way keeps the layouts that its tokens can still grow into, so
it is complete exactly when its tokens fill a layout of its mnemonic.  From
this, a draft is finished exactly when the tokens between line breaks each
write an instruction.
-/

namespace Pom8

/-! ## Written instructions -/

/-- Tokens fill a layout when each has a kind that its slot takes. -/
def Layout.FilledBy (layout : Layout) (tokens : List Token) : Prop :=
  List.Forall₂ (fun slot token => slot.accepts token.kind = true) layout tokens

/-- Tokens write operands that can all be used. -/
def Operand.WrittenBy
    (symbols : SymbolTable) (operands : List Operand) (tokens : List Token) :
    Prop :=
  List.Forall₂ (fun operand token =>
    ofToken? token = some operand ∧ operand.isValid symbols = true) operands tokens

/-- A mnemonic followed by the operands of one of its layouts writes an
instruction. -/
inductive Instruction.Written (symbols : SymbolTable) :
    List Token → Instruction → Prop
  | statement {head : Token} {tokens : List Token} {mnemonic : Mnemonic}
      {layout : Layout} {operands : List Operand} :
      head.kind = .mnemonic → Mnemonic.ofText? head.text = some mnemonic →
        layout ∈ mnemonic.layouts → layout.FilledBy tokens →
          Operand.WrittenBy symbols operands tokens →
            Written symbols (head :: tokens)
              { mnemonic := mnemonic, operands := operands, line := head.line }

theorem Operand.ofToken?_of_newline
    {token : Token} (h : token.kind = .newline) : ofToken? token = none := by
  simp [ofToken?, h]

theorem Operand.WrittenBy.kind_ne_newline
    {symbols : SymbolTable} {operands : List Operand} {tokens : List Token}
    (h : WrittenBy symbols operands tokens) :
    ∀ token ∈ tokens, token.kind ≠ .newline := by
  intro token htoken hnewline
  obtain ⟨operand, -, hoperand, -⟩ := exists_mem_left_of_forall₂ h htoken
  rw [ofToken?_of_newline hnewline] at hoperand
  cases hoperand

theorem Operand.WrittenBy.unique
    {symbols : SymbolTable} {first second : List Operand} {tokens : List Token}
    (hfirst : WrittenBy symbols first tokens)
    (hsecond : WrittenBy symbols second tokens) : first = second := by
  apply List.left_unique_forall₂' _ hfirst hsecond
  intro operand token other hoperand hother
  exact Option.some.inj (hoperand.1.symm.trans hother.1)

namespace Instruction.Written

theorem kind_ne_newline
    {symbols : SymbolTable} {tokens : List Token} {instruction : Instruction}
    (h : Written symbols tokens instruction) :
    ∀ token ∈ tokens, token.kind ≠ .newline := by
  cases h with
  | statement hkind _ _ _ hoperands =>
      rw [List.forall_mem_cons]
      exact ⟨by simp [hkind], hoperands.kind_ne_newline⟩

/-- Tokens write at most one instruction. -/
theorem unique
    {symbols : SymbolTable} {tokens : List Token} {first second : Instruction}
    (hfirst : Written symbols tokens first)
    (hsecond : Written symbols tokens second) : first = second := by
  cases hfirst with
  | statement _ hname _ _ hoperands =>
      cases hsecond with
      | statement _ hname' _ _ hoperands' =>
          obtain rfl := Option.some.inj (hname.symm.trans hname')
          obtain rfl := hoperands.unique hoperands'
          rfl

end Instruction.Written

/-! ## Growing a statement -/

namespace Statement

theorem start_eq_ok_iff {token : Token} {statement : Statement} :
    start token = .ok statement ↔
      token.kind = .mnemonic ∧ ∃ mnemonic,
        Mnemonic.ofText? token.text = some mnemonic ∧
          statement = ⟨mnemonic, token.line, token.line, [], mnemonic.layouts⟩ := by
  unfold start
  split
  next hkind =>
    cases hname : Mnemonic.ofText? token.text with
    | none => simp
    | some mnemonic => simp [hkind, eq_comm]
  next hkind =>
    constructor
    · intro h
      cases h
    · rintro ⟨hmnemonic, -⟩
      exact (hkind hmnemonic).elim

theorem take_eq_ok_iff
    {symbols : SymbolTable} {statement grown : Statement} {token : Token}
    {operand : Operand} :
    statement.take symbols token = .ok (operand, grown) ↔
      Operand.ofToken? token = some operand ∧
        operand.isValid symbols = true ∧
          statement.layouts.filterMap (Layout.after? token.kind) ≠ [] ∧
            grown = { statement with
              lastLine := token.line
              operands := statement.operands ++ [operand]
              layouts :=
                statement.layouts.filterMap (Layout.after? token.kind) } := by
  unfold take
  split
  next other layout layouts hoperand hlayouts =>
    rw [hoperand, hlayouts]
    split
    next hvalid =>
      constructor
      · intro h
        cases h
        exact ⟨rfl, hvalid, by simp, rfl⟩
      · rintro ⟨hother, -, -, rfl⟩
        cases hother
        rfl
    next hvalid =>
      constructor
      · intro h
        cases h
      · rintro ⟨hother, hvalid', -⟩
        cases hother
        exact absurd hvalid' hvalid
  next hnone =>
    constructor
    · intro h
      cases h
    · rintro ⟨hoperand, -, hne, -⟩
      obtain ⟨layout, layouts, hlayouts⟩ := List.exists_cons_of_ne_nil hne
      exact absurd hlayouts (hnone operand layout layouts hoperand)

theorem mem_filterMap_after?
    {layouts : List Layout} {kind : Token.Kind} {rest : Layout} :
    rest ∈ layouts.filterMap (Layout.after? kind) ↔
      ∃ slot, slot :: rest ∈ layouts ∧ slot.accepts kind = true := by
  rw [List.mem_filterMap]
  constructor
  · rintro ⟨layout, hlayout, hafter⟩
    cases layout with
    | nil => cases hafter
    | cons slot tail =>
        simp only [Layout.after?, Option.ite_none_right_eq_some,
          Option.some.injEq] at hafter
        obtain ⟨haccepts, rfl⟩ := hafter
        exact ⟨slot, hlayout, haccepts⟩
  · rintro ⟨slot, hmem, haccepts⟩
    exact ⟨slot :: rest, hmem, by simp [Layout.after?, haccepts]⟩

/-- A statement under way, after its mnemonic and some further tokens. -/
structure Begun
    (symbols : SymbolTable) (head : Token) (tokens : List Token)
    (statement : Statement) : Prop where
  kind : head.kind = .mnemonic
  mnemonic : Mnemonic.ofText? head.text = some statement.mnemonic
  line : statement.line = head.line
  operands : Operand.WrittenBy symbols statement.operands tokens
  /-- A list of open slots is what the tokens leave of some layout. -/
  layouts : ∀ rest, rest ∈ statement.layouts ↔
    ∃ filled : Layout, filled ++ rest ∈ statement.mnemonic.layouts ∧
      filled.FilledBy tokens

theorem begun_of_start
    {token : Token} {statement : Statement} (h : start token = .ok statement)
    (symbols : SymbolTable) : Begun symbols token [] statement := by
  obtain ⟨hkind, mnemonic, hname, rfl⟩ := start_eq_ok_iff.mp h
  exact
    { kind := hkind
      mnemonic := hname
      line := rfl
      operands := .nil
      layouts := by simp [Layout.FilledBy] }

variable {symbols : SymbolTable} {head : Token} {tokens : List Token}
  {statement : Statement}

/-- One more token takes the first of the open slots. -/
theorem Begun.take
    (h : Begun symbols head tokens statement) {token : Token}
    {operand : Operand} {grown : Statement}
    (htake : statement.take symbols token = .ok (operand, grown)) :
    Begun symbols head (tokens ++ [token]) grown := by
  obtain ⟨hoperand, hvalid, -, rfl⟩ := take_eq_ok_iff.mp htake
  refine
    { kind := h.kind
      mnemonic := h.mnemonic
      line := h.line
      operands :=
        List.rel_append h.operands (.cons ⟨hoperand, hvalid⟩ .nil)
      layouts := ?_ }
  intro rest
  rw [mem_filterMap_after?]
  constructor
  · rintro ⟨slot, hslot, haccepts⟩
    obtain ⟨filled, hmem, hfilled⟩ := (h.layouts (slot :: rest)).mp hslot
    exact ⟨filled ++ [slot], by simpa using hmem,
      forall₂_concat_right_iff.mpr ⟨filled, slot, rfl, hfilled, haccepts⟩⟩
  · rintro ⟨filled, hmem, hfilled⟩
    obtain ⟨front, slot, rfl, hfront, haccepts⟩ :=
      forall₂_concat_right_iff.mp hfilled
    exact ⟨slot, (h.layouts (slot :: rest)).mpr
      ⟨front, by simpa using hmem, hfront⟩, haccepts⟩

/-- A token is taken when some layout has a slot for it. -/
theorem Begun.exists_take
    (h : Begun symbols head tokens statement) {token : Token}
    {operand : Operand} {filled rest : Layout}
    (hmem : filled ++ rest ∈ statement.mnemonic.layouts)
    (hfilled : filled.FilledBy (tokens ++ [token]))
    (hoperand : Operand.ofToken? token = some operand)
    (hvalid : operand.isValid symbols = true) :
    ∃ grown, statement.take symbols token = .ok (operand, grown) := by
  obtain ⟨front, slot, rfl, hfront, haccepts⟩ :=
    forall₂_concat_right_iff.mp hfilled
  have hopen : slot :: rest ∈ statement.layouts :=
    (h.layouts (slot :: rest)).mpr ⟨front, by simpa using hmem, hfront⟩
  have hrest : rest ∈ statement.layouts.filterMap (Layout.after? token.kind) :=
    mem_filterMap_after?.mpr ⟨slot, hopen, haccepts⟩
  exact ⟨_, take_eq_ok_iff.mpr
    ⟨hoperand, hvalid, List.ne_nil_of_mem hrest, rfl⟩⟩

theorem Begun.isComplete_iff (h : Begun symbols head tokens statement) :
    statement.isComplete = true ↔
      ∃ layout ∈ statement.mnemonic.layouts, Layout.FilledBy layout tokens := by
  rw [isComplete, List.contains_iff_mem, h.layouts]
  simp

/-- The tokens of a complete statement write its instruction. -/
theorem Begun.written
    (h : Begun symbols head tokens statement)
    (hcomplete : statement.isComplete = true) :
    Instruction.Written symbols (head :: tokens) statement.instruction := by
  obtain ⟨layout, hlayout, hfilled⟩ := h.isComplete_iff.mp hcomplete
  have hwritten := Instruction.Written.statement h.kind h.mnemonic hlayout
    hfilled h.operands
  rwa [← h.line] at hwritten

end Statement
/-! ## Drafts -/

namespace Draft

variable {symbols : SymbolTable} {draft next : Draft} {token : Token}

theorem step_of_none (h : draft.statement = none) :
    step symbols draft token = .running next ↔
      ∃ statement, Statement.start token = .ok statement ∧
        next = { draft with statement := some statement } := by
  simp only [step, h]
  cases Statement.start token with
  | error fault => simp
  | ok statement => simp [eq_comm]

theorem step_of_newline
    {statement : Statement} (h : draft.statement = some statement)
    (hnewline : token.kind = .newline) :
    step symbols draft token = .running next ↔
      statement.isComplete = true ∧ next = draft.close statement := by
  simp only [step, h]
  by_cases hcomplete : statement.isComplete = true
  · simp [hnewline, hcomplete, eq_comm]
  · have htake : ∀ operand grown,
        statement.take symbols token ≠ .ok (operand, grown) := by
      intro operand grown htake
      have hoperand := (Statement.take_eq_ok_iff.mp htake).1
      rw [Operand.ofToken?_of_newline hnewline] at hoperand
      cases hoperand
    cases hresult : statement.take symbols token with
    | error fault => simp [hcomplete]
    | ok result => exact absurd hresult (htake result.1 result.2)

theorem step_of_operand
    {statement : Statement} (h : draft.statement = some statement)
    (hnewline : token.kind ≠ .newline) :
    step symbols draft token = .running next ↔
      ∃ operand grown, statement.take symbols token = .ok (operand, grown) ∧
        next = { draft with
          statement := some grown
          events := draft.events.push (.operandRead token.line operand) } := by
  simp only [step, h]
  cases hresult : statement.take symbols token with
  | error fault => simp [hnewline]
  | ok result =>
      obtain ⟨operand, grown⟩ := result
      simp only [hnewline, false_and, if_false, Progress.running.injEq,
        Except.ok.injEq, Prod.mk.injEq]
      constructor
      · rintro rfl
        exact ⟨operand, grown, ⟨rfl, rfl⟩, rfl⟩
      · rintro ⟨-, -, ⟨rfl, rfl⟩, rfl⟩
        rfl

/-! ## Tokens in groups -/

/-- Groups of tokens in a row, each followed by its line break. -/
def joinGroups (groups : List (List Token × Token)) : List Token :=
  groups.flatMap fun group => group.1 ++ [group.2]

theorem joinGroups_concat
    (groups : List (List Token × Token)) (body : List Token) (lineBreak : Token) :
    joinGroups (groups ++ [(body, lineBreak)]) =
      joinGroups groups ++ body ++ [lineBreak] := by
  simp [joinGroups]

/-- Splitting at line breaks gives the groups back, and what follows the last
of them. -/
theorem splitOnP_joinGroups
    {groups : List (List Token × Token)} {rest : List Token}
    (hbreaks : ∀ group ∈ groups, group.2.kind = .newline)
    (hbodies : ∀ group ∈ groups, ∀ token ∈ group.1, token.kind ≠ .newline)
    (hrest : ∀ token ∈ rest, token.kind ≠ .newline) :
    (joinGroups groups ++ rest).splitOnP (fun token => token.kind == .newline) =
      groups.map Prod.fst ++ [rest] := by
  induction groups with
  | nil =>
      rw [joinGroups, List.flatMap_nil, List.nil_append,
        List.splitOnP_eq_singleton (by simpa using hrest)]
      rfl
  | cons group groups ih =>
      obtain ⟨body, lineBreak⟩ := group
      rw [List.forall_mem_cons] at hbreaks hbodies
      have hjoin : joinGroups ((body, lineBreak) :: groups) ++ rest =
          body ++ lineBreak :: (joinGroups groups ++ rest) := by
        simp [joinGroups]
      rw [hjoin, List.splitOnP_append_cons_of_forall_mem
        (by simpa using hbodies.1) lineBreak (by simpa using hbreaks.1),
        ih hbreaks.2 hbodies.2]
      rfl

/-- The tokens after the last line break, and the statement they begin. -/
inductive Open (symbols : SymbolTable) : List Token → Option Statement → Prop
  | between : Open symbols [] none
  | within {head : Token} {tokens : List Token} {statement : Statement} :
      Statement.Begun symbols head tokens statement →
        Open symbols (head :: tokens) (some statement)

theorem Open.kind_ne_newline
    {tokens : List Token} {statement : Option Statement}
    (h : Open symbols tokens statement) :
    ∀ token ∈ tokens, token.kind ≠ .newline := by
  cases h with
  | between => simp
  | within hbegun =>
      rw [List.forall_mem_cons]
      exact ⟨by simp [hbegun.kind], hbegun.operands.kind_ne_newline⟩

/-- What a draft has made of the tokens read so far: an instruction of each
group, and a statement of what follows the last line break. -/
def Covers (symbols : SymbolTable) (tokens : List Token) (draft : Draft) : Prop :=
  ∃ groups rest, tokens = joinGroups groups ++ rest ∧
    (∀ group ∈ groups, group.2.kind = .newline) ∧
      List.Forall₂ (Instruction.Written symbols) (groups.map Prod.fst)
        draft.instructions.toList ∧
      Open symbols rest draft.statement

theorem covers_nil (symbols : SymbolTable) : Covers symbols [] {} :=
  ⟨[], [], rfl, by simp, .nil, .between⟩

/-- One more token leaves a draft that covers it too. -/
theorem Covers.step
    {tokens : List Token} (h : Covers symbols tokens draft)
    (hstep : step symbols draft token = .running next) :
    Covers symbols (tokens ++ [token]) next := by
  obtain ⟨groups, rest, rfl, hbreaks, hwritten, hopen⟩ := h
  cases hstatement : draft.statement with
  | none =>
      rw [hstatement] at hopen
      cases hopen
      obtain ⟨statement, hstart, rfl⟩ := (step_of_none hstatement).mp hstep
      refine ⟨groups, [token], by simp, hbreaks, hwritten, ?_⟩
      exact .within (Statement.begun_of_start hstart symbols)
  | some statement =>
      rw [hstatement] at hopen
      cases hopen with
      | @within head rest statement hbegun =>
          by_cases hnewline : token.kind = .newline
          · obtain ⟨hcomplete, rfl⟩ :=
              (step_of_newline hstatement hnewline).mp hstep
            refine ⟨groups ++ [(head :: rest, token)], [], ?_, ?_, ?_, .between⟩
            · rw [joinGroups_concat, List.append_nil]
            · rw [List.forall_mem_append]
              exact ⟨hbreaks, by simpa using hnewline⟩
            · simpa [close] using
                List.rel_append hwritten (.cons (hbegun.written hcomplete) .nil)
          · obtain ⟨operand, grown, htake, rfl⟩ :=
              (step_of_operand hstatement hnewline).mp hstep
            refine ⟨groups, head :: (rest ++ [token]), by simp, hbreaks,
              hwritten, ?_⟩
            exact .within (hbegun.take htake)

theorem covers_of_run
    {tokens : List Token}
    (h : Progress.run (Draft.step symbols) {} tokens = .running draft) :
    Covers symbols tokens draft :=
  Progress.run_induction (covers_nil symbols)
    (fun _ _ _ _ hcovers hstep => hcovers.step hstep) h

/-! ## Finished drafts -/

theorem finish_eq_running_iff :
    draft.finish = .running next ↔
      draft.statement = none ∧ next = draft ∨
        ∃ statement, draft.statement = some statement ∧
          statement.isComplete = true ∧ next = draft.close statement := by
  unfold finish
  cases hstatement : draft.statement with
  | none => simp [@eq_comm _ draft next]
  | some statement =>
      by_cases hcomplete : statement.isComplete = true
      · simp [hcomplete, @eq_comm _ (draft.close statement) next]
      · simp [hcomplete]

theorem ofTokens_eq_running_iff {tokens : List Token} :
    ofTokens symbols tokens = .running next ↔
      ∃ draft, Progress.run (Draft.step symbols) {} tokens = .running draft ∧
        draft.finish = .running next := by
  rw [ofTokens, Progress.andThen_eq_running_iff]

/-- Every instruction of a finished draft is written by some of its tokens. -/
theorem exists_written_of_mem
    {tokens : List Token} (h : ofTokens symbols tokens = .running draft)
    {instruction : Instruction}
    (hmem : instruction ∈ draft.instructions.toList) :
    ∃ body, Instruction.Written symbols body instruction := by
  obtain ⟨last, hrun, hfinish⟩ := ofTokens_eq_running_iff.mp h
  obtain ⟨groups, rest, -, -, hwritten, hopen⟩ := covers_of_run hrun
  have hlast : ∀ other ∈ last.instructions.toList,
      ∃ body, Instruction.Written symbols body other := by
    intro other hother
    obtain ⟨body, -, hbody⟩ := exists_mem_left_of_forall₂ hwritten hother
    exact ⟨body, hbody⟩
  rcases finish_eq_running_iff.mp hfinish with
    ⟨-, rfl⟩ | ⟨statement, hstatement, hcomplete, rfl⟩
  · exact hlast instruction hmem
  · rw [hstatement] at hopen
    cases hopen with
    | within hbegun =>
        simp only [close, Array.toList_push, List.mem_append,
          List.mem_singleton] at hmem
        rcases hmem with hmem | rfl
        · exact hlast instruction hmem
        · exact ⟨_, hbegun.written hcomplete⟩

/-- Tokens that fill the front of a layout begin a statement. -/
theorem exists_run_eq_running_of_filledBy
    {head : Token} {mnemonic : Mnemonic} (hkind : head.kind = .mnemonic)
    (hname : Mnemonic.ofText? head.text = some mnemonic)
    {tokens : List Token} {filled rest : Layout} {operands : List Operand}
    (hlayout : filled ++ rest ∈ mnemonic.layouts)
    (hfilled : filled.FilledBy tokens)
    (hoperands : Operand.WrittenBy symbols operands tokens)
    (hnone : draft.statement = none) :
    ∃ next statement,
      Progress.run (Draft.step symbols) draft (head :: tokens) = .running next ∧
        next.statement = some statement ∧
          Statement.Begun symbols head tokens statement := by
  induction tokens using List.reverseRecOn generalizing filled rest operands with
  | nil =>
      have hstart := Statement.start_eq_ok_iff.mpr ⟨hkind, mnemonic, hname, rfl⟩
      refine ⟨{ draft with statement := some _ }, _, ?_, rfl,
        Statement.begun_of_start hstart symbols⟩
      rw [Progress.run_singleton]
      exact (step_of_none hnone).mpr ⟨_, hstart, rfl⟩
  | append_singleton tokens token ih =>
      obtain ⟨front, slot, rfl, hfront, haccepts⟩ :=
        forall₂_concat_right_iff.mp hfilled
      obtain ⟨others, operand, rfl, hothers, hoperand, hvalid⟩ :=
        forall₂_concat_right_iff.mp hoperands
      obtain ⟨middle, statement, hrun, hstatement, hbegun⟩ :=
        ih (by simpa using hlayout) hfront hothers
      obtain rfl := Option.some.inj (hname.symm.trans hbegun.mnemonic)
      obtain ⟨grown, htake⟩ :=
        hbegun.exists_take hlayout hfilled hoperand hvalid
      have hnewline : token.kind ≠ .newline := by
        intro hnewline
        rw [Operand.ofToken?_of_newline hnewline] at hoperand
        cases hoperand
      have hstep := (step_of_operand hstatement hnewline).mpr
        ⟨operand, grown, htake, rfl⟩
      have hgrown := Progress.run_append_eq_running_iff.mpr
        ⟨middle, hrun, (Progress.run_singleton middle token).trans hstep⟩
      exact ⟨_, grown, hgrown, rfl, hbegun.take htake⟩

theorem exists_run_eq_running_of_written
    {body : List Token} {instruction : Instruction} {lineBreak : Token}
    (h : Instruction.Written symbols body instruction)
    (hbreak : lineBreak.kind = .newline) (hnone : draft.statement = none) :
    ∃ next, Progress.run (Draft.step symbols) draft (body ++ [lineBreak]) =
      .running next ∧ next.statement = none := by
  cases h with
  | @statement head tokens mnemonic layout operands hkind hname hlayout hfilled
      hoperands =>
      obtain ⟨middle, statement, hrun, hstatement, hbegun⟩ :=
        exists_run_eq_running_of_filledBy hkind hname
          (show layout ++ [] ∈ mnemonic.layouts by rwa [List.append_nil])
          hfilled hoperands hnone
      obtain rfl := Option.some.inj (hname.symm.trans hbegun.mnemonic)
      have hcomplete := hbegun.isComplete_iff.mpr ⟨layout, hlayout, hfilled⟩
      refine ⟨middle.close statement, ?_, rfl⟩
      rw [Progress.run_append_eq_running_iff]
      refine ⟨middle, hrun, ?_⟩
      rw [Progress.run_singleton]
      exact (step_of_newline hstatement hbreak).mpr ⟨hcomplete, rfl⟩

theorem exists_run_joinGroups
    {groups : List (List Token × Token)} {program : List Instruction}
    (hbreaks : ∀ group ∈ groups, group.2.kind = .newline)
    (hwritten : List.Forall₂ (Instruction.Written symbols)
      (groups.map Prod.fst) program)
    (hnone : draft.statement = none) :
    ∃ next, Progress.run (Draft.step symbols) draft (joinGroups groups) =
      .running next ∧ next.statement = none := by
  induction groups generalizing draft program with
  | nil => exact ⟨draft, rfl, hnone⟩
  | cons group groups ih =>
      rw [List.forall_mem_cons] at hbreaks
      obtain ⟨instruction, rest, hfirst, hrest, rfl⟩ :=
        List.forall₂_cons_left_iff.mp hwritten
      obtain ⟨middle, hgroup, hmiddle⟩ :=
        exists_run_eq_running_of_written hfirst hbreaks.1 hnone
      obtain ⟨next, hgroups, hnext⟩ := ih hbreaks.2 hrest hmiddle
      refine ⟨next, ?_, hnext⟩
      rw [joinGroups, List.flatMap_cons, Progress.run_append_eq_running_iff]
      exact ⟨middle, hgroup, hgroups⟩

/-- A draft that covers grouped tokens and some more has an instruction of each
group and a statement of what follows them. -/
theorem Covers.written_of_append
    {groups : List (List Token × Token)} {rest : List Token}
    (hbreaks : ∀ group ∈ groups, group.2.kind = .newline)
    (hbodies : ∀ group ∈ groups, ∀ token ∈ group.1, token.kind ≠ .newline)
    (hrest : ∀ token ∈ rest, token.kind ≠ .newline)
    (h : Covers symbols (joinGroups groups ++ rest) draft) :
    List.Forall₂ (Instruction.Written symbols) (groups.map Prod.fst)
        draft.instructions.toList ∧
      Open symbols rest draft.statement := by
  obtain ⟨others, other, hjoin, hbreaks', hwritten, hopen⟩ := h
  have hbodies' : ∀ group ∈ others, ∀ token ∈ group.1,
      token.kind ≠ .newline := by
    intro group hgroup
    obtain ⟨instruction, -, hinstruction⟩ :=
      exists_mem_right_of_forall₂ hwritten (List.mem_map_of_mem hgroup)
    exact hinstruction.kind_ne_newline
  -- Both ways to group the tokens split them at the same line breaks.
  have hsplit := splitOnP_joinGroups hbreaks hbodies hrest
  have hsplit' := splitOnP_joinGroups hbreaks' hbodies' hopen.kind_ne_newline
  rw [← hjoin, hsplit] at hsplit'
  obtain ⟨hmap, hother⟩ := List.append_inj' hsplit' rfl
  obtain rfl : rest = other := by simpa using hother
  exact ⟨by rwa [hmap], hopen⟩

/-- A draft that covers grouped tokens has an instruction of each group and
nothing after them. -/
theorem Covers.written_of_joinGroups
    {groups : List (List Token × Token)}
    (hbreaks : ∀ group ∈ groups, group.2.kind = .newline)
    (hbodies : ∀ group ∈ groups, ∀ token ∈ group.1, token.kind ≠ .newline)
    (h : Covers symbols (joinGroups groups) draft) :
    List.Forall₂ (Instruction.Written symbols) (groups.map Prod.fst)
        draft.instructions.toList ∧
      draft.statement = none := by
  rw [← List.append_nil (joinGroups groups)] at h
  obtain ⟨hwritten, hopen⟩ := h.written_of_append hbreaks hbodies (by simp)
  refine ⟨hwritten, ?_⟩
  cases hstatement : draft.statement with
  | none => rfl
  | some statement =>
      rw [hstatement] at hopen
      cases hopen

/-- A draft of grouped tokens is finished exactly when each group writes an
instruction. -/
theorem ofTokens_joinGroups_iff
    {groups : List (List Token × Token)} {program : List Instruction}
    (hbreaks : ∀ group ∈ groups, group.2.kind = .newline)
    (hbodies : ∀ group ∈ groups, ∀ token ∈ group.1, token.kind ≠ .newline) :
    (∃ draft, ofTokens symbols (joinGroups groups) = .running draft ∧
        draft.instructions.toList = program) ↔
      List.Forall₂ (Instruction.Written symbols) (groups.map Prod.fst) program := by
  constructor
  · rintro ⟨draft, hdraft, rfl⟩
    obtain ⟨last, hrun, hfinish⟩ := ofTokens_eq_running_iff.mp hdraft
    obtain ⟨hwritten, hnone⟩ :=
      (covers_of_run hrun).written_of_joinGroups hbreaks hbodies
    rw [finish, hnone] at hfinish
    cases hfinish
    exact hwritten
  · intro hwritten
    obtain ⟨draft, hrun, hnone⟩ := exists_run_joinGroups hbreaks hwritten
      (show ({} : Draft).statement = none from rfl)
    have hprogram :=
      ((covers_of_run hrun).written_of_joinGroups hbreaks hbodies).1
    refine ⟨draft, ?_, ?_⟩
    · rw [ofTokens_eq_running_iff]
      exact ⟨draft, hrun, by rw [finish, hnone]⟩
    · exact List.right_unique_forall₂'
        (fun _ _ _ hfirst hsecond => hfirst.unique hsecond) hprogram hwritten

end Draft
end Pom8
