import Mathlib.Data.List.Induction
import Pom8.Progress

/-!
# Runs of a reading

A run over a joined input is the run over its first part, continued over the
second.  A reading that is still running at the end was running after every
step, so a property that every step preserves holds of the final state.
-/

namespace Pom8.Progress

variable {ε σ α : Type} {step : σ → α → Progress ε σ}

theorem andThen_eq_running_iff
    {progress : Progress ε σ} {next : σ → Progress ε σ} {final : σ} :
    progress.andThen next = running final ↔
      ∃ state, progress = running state ∧ next state = running final := by
  cases progress with
  | running state => simp [andThen]
  | halted state fault => simp [andThen]

@[simp] theorem run_nil (start : σ) : run step start [] = running start :=
  rfl

/-- A reading that has halted takes no further element. -/
theorem foldl_andThen_halted (state : σ) (fault : ε) (input : List α) :
    input.foldl (fun progress element => progress.andThen (step · element))
      (halted state fault) = halted state fault := by
  induction input with
  | nil => rfl
  | cons element rest ih => exact ih

theorem run_cons (start : σ) (element : α) (rest : List α) :
    run step start (element :: rest) =
      (step start element).andThen (run step · rest) := by
  rw [run, List.foldl_cons]
  change rest.foldl _ (step start element) = _
  cases step start element with
  | running state => rfl
  | halted state fault => exact foldl_andThen_halted state fault rest

theorem run_append (start : σ) (first second : List α) :
    run step start (first ++ second) =
      (run step start first).andThen (run step · second) := by
  induction first generalizing start with
  | nil => rfl
  | cons element rest ih =>
      rw [List.cons_append, run_cons, run_cons]
      cases step start element with
      | running state => exact ih state
      | halted state fault => rfl

@[simp] theorem run_singleton (start : σ) (element : α) :
    run step start [element] = step start element := by
  rw [run_cons]
  cases step start element with
  | running state => rfl
  | halted state fault => rfl

theorem run_append_eq_running_iff
    {start final : σ} {first second : List α} :
    run step start (first ++ second) = running final ↔
      ∃ state, run step start first = running state ∧
        run step state second = running final := by
  rw [run_append, andThen_eq_running_iff]

theorem run_cons_eq_running_iff
    {start final : σ} {element : α} {rest : List α} :
    run step start (element :: rest) = running final ↔
      ∃ state, step start element = running state ∧
        run step state rest = running final := by
  rw [run_cons, andThen_eq_running_iff]

theorem run_concat_eq_running_iff
    {start final : σ} {before : List α} {element : α} :
    run step start (before ++ [element]) = running final ↔
      ∃ state, run step start before = running state ∧
        step state element = running final := by
  simp only [run_append_eq_running_iff, run_singleton]

/-- What holds of the empty input and is kept by each step that runs on holds of
the whole input and the state it leads to. -/
theorem run_induction
    {motive : List α → σ → Prop} {start final : σ} {input : List α}
    (hstart : motive [] start)
    (hstep : ∀ before state element next, motive before state →
      step state element = running next → motive (before ++ [element]) next)
    (hrun : run step start input = running final) :
    motive input final := by
  induction input using List.reverseRecOn generalizing final with
  | nil =>
      rw [run_nil] at hrun
      cases hrun
      exact hstart
  | append_singleton before element ih =>
      obtain ⟨state, hbefore, hlast⟩ := run_concat_eq_running_iff.mp hrun
      exact hstep before state element final (ih hbefore) hlast

/-! ## Readings that halt -/

variable {start last : σ} {fault : ε}

theorem run_append_of_halted
    {first : List α} (h : run step start first = halted last fault)
    (second : List α) : run step start (first ++ second) = halted last fault := by
  rw [run_append, h]
  rfl

/-- A reading of blocks halts in one of them and has read those before it. -/
theorem exists_block_of_run_eq_halted
    {β : Type} {block : β → List α} {blocks : List β}
    (h : run step start (blocks.flatMap block) = halted last fault) :
    ∃ before b after state, blocks = before ++ b :: after ∧
      run step start (before.flatMap block) = running state ∧
        run step state (block b) = halted last fault := by
  induction blocks generalizing start with
  | nil => cases h
  | cons b rest ih =>
      rw [List.flatMap_cons, run_append] at h
      cases hblock : run step start (block b) with
      | running state =>
          rw [hblock] at h
          obtain ⟨before, other, after, final, rfl, hbefore, hhalted⟩ := ih h
          refine ⟨b :: before, other, after, final, rfl, ?_, hhalted⟩
          rw [List.flatMap_cons, run_append, hblock]
          exact hbefore
      | halted state other =>
          rw [hblock] at h
          exact ⟨[], b, rest, start, rfl, rfl, hblock.trans h⟩

/-- A reading halts at one of the elements it reads and has read those before it. -/
theorem exists_split_of_run_eq_halted
    {input : List α} (h : run step start input = halted last fault) :
    ∃ before element after state, input = before ++ element :: after ∧
      run step start before = running state ∧
        step state element = halted last fault := by
  rw [← List.flatMap_singleton' input] at h
  obtain ⟨before, element, after, state, hinput, hbefore, helement⟩ :=
    exists_block_of_run_eq_halted h
  rw [List.flatMap_singleton'] at hbefore
  rw [run_singleton] at helement
  exact ⟨before, element, after, state, hinput, hbefore, helement⟩

theorem exists_step_of_run_eq_halted
    {input : List α} (h : run step start input = halted last fault) :
    ∃ element ∈ input, ∃ state, step state element = halted last fault := by
  obtain ⟨before, element, after, state, rfl, -, hstep⟩ :=
    exists_split_of_run_eq_halted h
  exact ⟨element, by simp, state, hstep⟩

/-! ## Readings that follow one another -/

variable {δ τ β : Type}

/-- The reading with its fault and its state changed. -/
def map (onFault : ε → δ) (onState : σ → τ) : Progress ε σ → Progress δ τ
  | running state => running (onState state)
  | halted state fault => halted (onState state) (onFault fault)

theorem map_andThen
    {onFault : ε → δ} {onState : σ → τ} {progress : Progress ε σ}
    {next : σ → Progress ε σ} {next' : τ → Progress δ τ}
    (h : ∀ state, next' (onState state) = (next state).map onFault onState) :
    (progress.map onFault onState).andThen next' =
      (progress.andThen next).map onFault onState := by
  cases progress with
  | running state => exact h state
  | halted state fault => rfl

/-- Steps that follow one another make runs that follow one another. -/
theorem run_map
    {step' : τ → β → Progress δ τ} {onFault : ε → δ} {onState : σ → τ}
    {onElement : α → β}
    (hstep : ∀ state element, step' (onState state) (onElement element) =
      (step state element).map onFault onState)
    (start : σ) (input : List α) :
    run step' (onState start) (input.map onElement) =
      (run step start input).map onFault onState := by
  induction input generalizing start with
  | nil => rfl
  | cons element rest ih =>
      rw [List.map_cons, run_cons, run_cons, hstep]
      exact map_andThen ih

end Pom8.Progress
