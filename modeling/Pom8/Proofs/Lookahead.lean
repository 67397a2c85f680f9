import Pom8.Proofs.Language

/-!
# One token of lookahead

A draft keeps all the layouts that a statement can still fill.  A reader can also
settle the layout when the statement starts, since two layouts of a mnemonic part
at the second token after it.  Looking ahead in this way changes nothing: both
readings end with the same instructions or with the same fault.
-/

namespace Pom8

/-- The layout that the second token after a mnemonic tells: a number stands
there in the shorter layout only. -/
def Mnemonic.foreseen (mnemonic : Mnemonic) (following : List Token) : Layout :=
  if following[1]?.any fun token => token.kind.isNumeric then
    mnemonic.layouts.headD []
  else mnemonic.layouts.getLastD []

namespace Statement

/-- A statement with one layout left. -/
def settled (statement : Statement) (layout : Layout) : Statement :=
  { statement with layouts := [layout] }

end Statement

namespace Draft

/-- Reads tokens with the layout of each statement settled when it starts. -/
def readAhead (symbols : SymbolTable) (draft : Draft) :
    List Token → Progress Fault Draft
  | [] => draft.finish
  | token :: rest =>
    match draft.statement with
    | some _ => (draft.step symbols token).andThen (readAhead symbols · rest)
    | none =>
      match Statement.start token with
      | .error fault => .halted draft fault
      | .ok statement =>
        let layout := statement.mnemonic.foreseen rest
        readAhead symbols { draft with statement := some (statement.settled layout) }
          rest

/-- The instructions or the fault that a reading ends with. -/
def outcome (progress : Progress Fault Draft) : Except Fault (List Instruction) :=
  progress.toExcept.map fun draft => draft.instructions.toList

end Draft

/-! ## Operands that fit a slot -/

namespace Operand

variable {token : Token}

theorem ofToken?_eq_none_iff :
    ofToken? token = none ↔
      token.kind = .label ∨ token.kind = .comment ∨ token.kind = .newline := by
  unfold ofToken?
  cases hkind : token.kind with
  | decimal =>
      dsimp only
      split <;> simp
  | _ => simp

/-- A token that fits a slot writes an operand. -/
theorem exists_ofToken?_of_accepts
    {slot : Slot} (h : slot.accepts token.kind = true) :
    ∃ operand, ofToken? token = some operand := by
  by_contra hnone
  rw [← Option.ne_none_iff_exists', not_not, ofToken?_eq_none_iff] at hnone
  rcases hnone with hkind | hkind | hkind
  all_goals
    rw [hkind, Grammar.accepts_iff] at h
    simp at h

end Operand

/-! ## Open layouts and the settled one -/

theorem Mnemonic.layouts_cases (mnemonic : Mnemonic) :
    (∃ layout, mnemonic.layouts = [layout]) ∨
      mnemonic.layouts =
        [[.register, .numeric], [.register, .register, .numeric]] := by
  unfold layouts
  split
  · exact Or.inl ⟨[], rfl⟩
  · split
    · exact Or.inl ⟨[.target], rfl⟩
    · split
      · exact Or.inl ⟨[.register], rfl⟩
      · exact Or.inr rfl
    · split
      · exact Or.inl ⟨[.register, .register], rfl⟩
      · exact Or.inl ⟨[.register, .register, .register], rfl⟩

namespace Statement

/-- The open layouts of a statement before some tokens, and the one that a settled
reader goes on with.  Two layouts are open until the second operand is read. -/
inductive Narrows (following : List Token) : List Layout → Layout → Prop
  | only (layout : Layout) : Narrows following [layout] layout
  | first :
      Narrows following [[.register, .numeric], [.register, .register, .numeric]]
        (if following[1]?.any fun token => token.kind.isNumeric then
          [.register, .numeric] else [.register, .register, .numeric])
  | second :
      Narrows following [[.numeric], [.register, .numeric]]
        (if following[0]?.any fun token => token.kind.isNumeric then
          [.numeric] else [.register, .numeric])

theorem narrows_foreseen (mnemonic : Mnemonic) (following : List Token) :
    Narrows following mnemonic.layouts (mnemonic.foreseen following) := by
  unfold Mnemonic.foreseen
  rcases mnemonic.layouts_cases with ⟨layout, honly⟩ | hboth
  · rw [honly]
    simpa using Narrows.only layout
  · rw [hboth]
    exact .first

variable {token : Token} {rest following : List Token} {layouts : List Layout}
  {layout : Layout} {statement : Statement}

theorem Narrows.isComplete_settled
    (h : Narrows following statement.layouts layout) :
    (statement.settled layout).isComplete = statement.isComplete := by
  unfold isComplete settled
  generalize statement.layouts = layouts at h
  cases h with
  | only => rfl
  | first => split <;> rfl
  | second => split <;> rfl

/-- At the end of the tokens both readers call for the same. -/
theorem Narrows.expectation_settled
    (h : Narrows [] statement.layouts layout) :
    (statement.settled layout).expectation = statement.expectation := by
  unfold expectation settled
  generalize statement.layouts = layouts at h
  cases h with
  | only => rfl
  | first => rfl
  | second => rfl

/-- A token either fits no layout, and then both readers call for the same, or it
fits the settled layout, which is the settled one of those that are left. -/
theorem Narrows.after_cases
    (h : Narrows (token :: rest) statement.layouts layout) :
    (statement.layouts.filterMap (Layout.after? token.kind) = [] ∧
        layout.after? token.kind = none ∧
          (statement.settled layout).expectation = statement.expectation) ∨
      ∃ next, layout.after? token.kind = some next ∧
        Narrows rest (statement.layouts.filterMap (Layout.after? token.kind))
          next := by
  unfold expectation settled
  generalize statement.layouts = layouts at h
  cases h with
  | only =>
      cases hafter : layout.after? token.kind with
      | none => exact Or.inl ⟨by simp [hafter], rfl, rfl⟩
      | some next => exact Or.inr ⟨next, rfl, by simpa [hafter] using .only next⟩
  | first =>
      cases hregister : Slot.register.accepts token.kind with
      | true =>
          right
          refine ⟨if rest[0]?.any fun token => token.kind.isNumeric then
            [.numeric] else [.register, .numeric], ?_, ?_⟩
          · rw [List.getElem?_cons_succ]
            split <;> simp [Layout.after?, hregister]
          · simpa [Layout.after?, hregister] using Narrows.second
      | false =>
          left
          refine ⟨by simp [Layout.after?, hregister], ?_, ?_⟩
          · split <;> simp [Layout.after?, hregister]
          · split_ifs <;> rfl
  | second =>
      have hslot : Slot.numeric.accepts token.kind = token.kind.isNumeric := rfl
      rw [List.getElem?_cons_zero, Option.any_some]
      cases hnumeric : token.kind.isNumeric with
      | true =>
          -- A number is no register, so the longer layout is given up.
          have hregister : Slot.register.accepts token.kind = false := by
            cases hkind : token.kind <;> simp_all [Slot.accepts, Token.Kind.isNumeric]
          right
          refine ⟨[], by simp [Layout.after?, hslot, hnumeric], ?_⟩
          simpa [Layout.after?, hslot, hnumeric, hregister] using Narrows.only []
      | false =>
          cases hregister : Slot.register.accepts token.kind with
          | true =>
              right
              refine ⟨[.numeric], by simp [Layout.after?, hregister], ?_⟩
              simpa [Layout.after?, hslot, hnumeric, hregister] using
                Narrows.only [.numeric]
          | false =>
              left
              refine ⟨?_, by simp [Layout.after?, hregister], rfl⟩
              simp [Layout.after?, hslot, hnumeric, hregister]

theorem Narrows.ne_nil (h : Narrows following layouts layout) : layouts ≠ [] := by
  cases h with
  | only => exact List.cons_ne_nil _ _
  | first => exact List.cons_ne_nil _ _
  | second => exact List.cons_ne_nil _ _

theorem take_of_filterMap_eq_nil
    (h : statement.layouts.filterMap (Layout.after? token.kind) = [])
    (symbols : SymbolTable) :
    statement.take symbols token =
      .error (.unexpected token.line statement.expectation (some token)) := by
  rw [take, h]
  cases Operand.ofToken? token with
  | none => rfl
  | some operand => rfl

theorem take_of_filterMap_ne_nil
    {operand : Operand} (hoperand : Operand.ofToken? token = some operand)
    (h : statement.layouts.filterMap (Layout.after? token.kind) ≠ [])
    (symbols : SymbolTable) :
    statement.take symbols token =
      if operand.isValid symbols then
        .ok (operand,
          { statement with
            lastLine := token.line
            operands := statement.operands ++ [operand]
            layouts := statement.layouts.filterMap (Layout.after? token.kind) })
      else .error (invalidOperand token operand) := by
  obtain ⟨layout, layouts, hlayouts⟩ := List.exists_cons_of_ne_nil h
  rw [take, hoperand, hlayouts]

/-- Both readers take a token alike. -/
theorem Narrows.take_cases
    (h : Narrows (token :: rest) statement.layouts layout)
    (symbols : SymbolTable) :
    (∃ fault, statement.take symbols token = .error fault ∧
        (statement.settled layout).take symbols token = .error fault) ∨
      ∃ operand grown next,
        statement.take symbols token = .ok (operand, grown) ∧
          (statement.settled layout).take symbols token =
            .ok (operand, grown.settled next) ∧
          Narrows rest grown.layouts next := by
  have hlayouts : (statement.settled layout).layouts.filterMap
      (Layout.after? token.kind) = (layout.after? token.kind).toList := by
    rw [settled, List.filterMap_cons]
    cases layout.after? token.kind with
    | none => rfl
    | some next => rfl
  rcases h.after_cases with ⟨hnone, hafter, hexpectation⟩ | ⟨next, hafter, hnext⟩
  · rw [hafter, Option.toList_none] at hlayouts
    rw [take_of_filterMap_eq_nil hnone, take_of_filterMap_eq_nil hlayouts,
      hexpectation]
    exact Or.inl ⟨_, rfl, rfl⟩
  · rw [hafter, Option.toList_some] at hlayouts
    obtain ⟨slot, -, haccepts⟩ := mem_filterMap_after?.mp
      (show next ∈ _ from hlayouts ▸ List.mem_singleton_self next)
    obtain ⟨operand, hoperand⟩ := Operand.exists_ofToken?_of_accepts haccepts
    rw [take_of_filterMap_ne_nil hoperand hnext.ne_nil,
      take_of_filterMap_ne_nil hoperand (hlayouts ▸ List.cons_ne_nil next []), hlayouts]
    by_cases hvalid : operand.isValid symbols = true
    · rw [if_pos hvalid, if_pos hvalid]
      exact Or.inr ⟨operand, _, next, rfl, rfl, hnext⟩
    · rw [if_neg hvalid, if_neg hvalid]
      exact Or.inl ⟨_, rfl, rfl⟩

end Statement

namespace Draft

open Statement

/-- A draft and what a settled reader has in its place. -/
inductive Follows (following : List Token) : Draft → Draft → Prop
  | between {draft : Draft} :
      draft.statement = none → Follows following draft draft
  | within {draft : Draft} {statement : Statement} {layout : Layout} :
      draft.statement = some statement →
        Narrows following statement.layouts layout →
          Follows following draft
            { draft with statement := some (statement.settled layout) }

theorem outcome_readAhead_of_follows
    {symbols : SymbolTable} {draft ahead : Draft} {tokens : List Token}
    (h : Follows tokens draft ahead) :
    outcome (readAhead symbols ahead tokens) =
      outcome ((Progress.run (step symbols) draft tokens).andThen finish) := by
  induction tokens generalizing draft ahead with
  | nil =>
      cases h with
      | between hnone => rfl
      | @within statement layout hsome hnarrows =>
          rw [readAhead, Progress.run_nil, Progress.andThen]
          simp only [finish, hsome, hnarrows.isComplete_settled,
            hnarrows.expectation_settled]
          split
          · rfl
          · rfl
  | cons token rest ih =>
      rw [Progress.run_cons]
      cases h with
      | between hnone =>
          simp only [readAhead, step, hnone]
          cases hstart : Statement.start token with
          | error fault => rfl
          | ok statement =>
              obtain ⟨-, mnemonic, -, rfl⟩ := start_eq_ok_iff.mp hstart
              exact ih (.within rfl (narrows_foreseen mnemonic rest))
      | @within statement layout hsome hnarrows =>
          simp only [readAhead, step, hsome, hnarrows.isComplete_settled]
          by_cases hclose : token.kind = .newline ∧ statement.isComplete = true
          · rw [if_pos hclose, if_pos hclose]
            exact ih (.between rfl)
          · rw [if_neg hclose, if_neg hclose]
            rcases hnarrows.take_cases symbols with
              ⟨fault, htake, hsettled⟩ | ⟨operand, grown, next, htake, hsettled, hnext⟩
            · rw [htake, hsettled]
              rfl
            · rw [htake, hsettled]
              exact ih (.within rfl hnext)

/-- Looking ahead changes neither the instructions of a reading nor its fault. -/
theorem outcome_readAhead (symbols : SymbolTable) (tokens : List Token) :
    outcome (readAhead symbols {} tokens) = outcome (ofTokens symbols tokens) :=
  outcome_readAhead_of_follows (.between rfl)

end Draft
end Pom8
