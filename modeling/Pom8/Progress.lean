/-!
# Stepwise readings that can halt

A reading consumes its input one element at a time.  When it halts at a fault,
it keeps the state it had reached, so that what was done before the fault can
still be reported.
-/

namespace Pom8

/-- A reading that is still running, or that has halted at a fault. -/
inductive Progress (ε σ : Type) where
  | running (state : σ)
  | halted (state : σ) (fault : ε)
  deriving DecidableEq, Repr

namespace Progress

variable {ε σ α : Type}

/-- The state that a reading has reached. -/
def state : Progress ε σ → σ
  | running state => state
  | halted state _ => state

/-- The final state, or the fault at which the reading halted. -/
def toExcept : Progress ε σ → Except ε σ
  | running state => .ok state
  | halted _ fault => .error fault

/-- Continues a reading that is still running. -/
def andThen (progress : Progress ε σ) (next : σ → Progress ε σ) : Progress ε σ :=
  match progress with
  | running state => next state
  | halted state fault => halted state fault

/-- Consumes the elements of a list in order, up to the first fault. -/
def run (step : σ → α → Progress ε σ) (start : σ) (input : List α) :
    Progress ε σ :=
  input.foldl (fun progress element => progress.andThen (step · element))
    (running start)

end Progress
end Pom8
