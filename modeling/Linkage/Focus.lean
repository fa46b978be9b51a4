/-!
# Computations on a part of the state

A step that may fail keeps the state it has reached, so what it did before the fault stays done. `focus` runs such a step on one
part of a larger state.
-/

namespace Linkage

variable {ε ε' σ τ α : Type}

/-- Runs a step on the part of the state that `get` reads. What the step leaves of that part, also on a fault, is put back. -/
def focus (get : σ → τ) (put : τ → σ → σ) (fault : ε → ε') (step : EStateM ε τ α) : EStateM ε' σ α := fun s =>
  match step (get s) with
  | .ok a t => .ok a (put t s)
  | .error e t => .error (fault e) (put t s)

/-- Runs a step: its answer or fault, and the state that it leaves behind. -/
def runStep (step : EStateM ε σ α) (s : σ) : Except ε α × σ :=
  match step s with
  | .ok a t => (.ok a, t)
  | .error e t => (.error e, t)

/-- A step that has the answer already, or its fault, and leaves the state alone. -/
def answer (result : Except ε α) : EStateM ε σ α :=
  match result with
  | .ok a => pure a
  | .error e => throw e

end Linkage
