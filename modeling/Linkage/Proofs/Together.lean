import Linkage.Proofs.Step
import Mathlib.Data.Option.Basic

/-!
# Runs that succeed together

Where two programs differ in what a message shows only, their runs fail on the same inputs but not with the same fault. `completed` is what
a run comes to when its fault does not matter. `Together` compares two runs, each of its own step from its own state: both succeed, with
answers and states that are related, or both fail.
-/

namespace Linkage

variable {ε ε' σ τ α β : Type}

/-- The answer of a run and the state behind it, or nothing if it fails. -/
def completed (step : EStateM ε σ α) (s : σ) : Option (α × σ) :=
  match step s with
  | .ok a t => some (a, t)
  | .error _ _ => none

/-- What is done to an answer is done to it without the fault. -/
theorem toOption_map (f : α → β) (r : Except ε α) : (f <$> r).toOption = r.toOption.map f := by
  cases r <;> rfl

section Equations

variable {s : σ}

/-- What two steps come to is what the second comes to from where the first does. -/
theorem completed_bind (x : EStateM ε σ α) (f : α → EStateM ε σ β) :
    completed (x >>= f) s = (completed x s).bind fun end' => completed (f end'.1) end'.2 := by
  change completed (EStateM.bind x f) s = _
  unfold completed EStateM.bind
  cases x s <;> rfl

/-- An answer that is there already is what a run comes to. -/
theorem completed_answer (r : Except ε α) : completed (answer r) s = r.toOption.map fun a => (a, s) := by
  cases r <;> rfl

/-- A step on a part of the state comes to what it comes to there. -/
theorem completed_focus (get : σ → τ) (put : τ → σ → σ) (fault : ε' → ε) (x : EStateM ε' τ α) :
    completed (focus get put fault x) s = (completed x (get s)).map fun end' => (end'.1, put end'.2 s) := by
  unfold completed focus
  cases x (get s) <;> rfl

end Equations

/-! ## Two runs -/

/-- Both runs end in answers that are related, in states that are related, or both end in faults. -/
def Together (x : EStateM ε σ α) (s : σ) (y : EStateM ε σ α) (t : σ) (ok : α → σ → α → σ → Prop) : Prop :=
  Option.Rel (fun p q => ok p.1 p.2 q.1 q.2) (completed x s) (completed y t)

namespace Together

variable {x y : EStateM ε σ α} {s t : σ} {ok ok' : α → σ → α → σ → Prop}

/-- A step, run twice from one state. -/
theorem refl (x : EStateM ε σ α) (s : σ) : Together x s x s fun a s' b t' => a = b ∧ s' = t' := by
  unfold Together
  cases completed x s with
  | none => exact .none
  | some end' => exact .some ⟨rfl, rfl⟩

/-- What is related follows from what is related more closely. -/
theorem mono (h : Together x s y t ok) (hok : ∀ a s' b t', ok a s' b t' → ok' a s' b t') : Together x s y t ok' := by
  unfold Together at *
  generalize completed x s = p at h ⊢
  generalize completed y t = q at h ⊢
  cases h with
  | none => exact .none
  | some h => exact .some (hok _ _ _ _ h)

/-- Answers and states that are related already. -/
theorem pure {a b : α} (h : ok a s b t) : Together (pure a : EStateM ε σ α) s (pure b) t ok :=
  .some h

/-- Two faults, which need not be the same. -/
theorem throw (e e' : ε) (s t : σ) (ok : α → σ → α → σ → Prop) :
    Together (throw e : EStateM ε σ α) s (throw e') t ok :=
  .none

/-- One step after another, in both runs. -/
theorem bind {f g : α → EStateM ε σ β} {ok'' : β → σ → β → σ → Prop} (h : Together x s y t ok)
    (hnext : ∀ a s' b t', ok a s' b t' → Together (f a) s' (g b) t' ok'') : Together (x >>= f) s (y >>= g) t ok'' := by
  unfold Together at *
  rw [completed_bind, completed_bind]
  generalize completed x s = p at h ⊢
  generalize completed y t = q at h ⊢
  cases h with
  | none => exact .none
  | some h => exact hnext _ _ _ _ h

/-- Both steps read their own state first. -/
theorem get_bind {f g : σ → EStateM ε σ β} {ok : β → σ → β → σ → Prop} (h : Together (f s) s (g t) t ok) :
    Together (get >>= f) s (get >>= g) t ok :=
  h

/-- Answers that are there already and look the same, or faults. -/
theorem answer {γ : Type} (view : α → γ) {r r' : Except ε α} (h : r.toOption.map view = r'.toOption.map view) (s : σ) :
    Together (answer r) s (answer r') s fun a s' b t' => view a = view b ∧ s = s' ∧ s = t' := by
  unfold Together
  rw [completed_answer, completed_answer]
  generalize r.toOption = given at h ⊢
  generalize r'.toOption = given' at h ⊢
  cases given with
  | none =>
    cases given' with
    | none => exact .none
    | some b => cases h
  | some a =>
    cases given' with
    | none => cases h
    | some b => exact .some ⟨Option.some.inj h, rfl, rfl⟩

/-- Steps on a part of the state. -/
theorem focus {get : σ → τ} {put : τ → σ → σ} {fault fault' : ε' → ε} {x y : EStateM ε' τ α} {ok : α → τ → α → τ → Prop}
    {ok' : α → σ → α → σ → Prop} (h : Together x (get s) y (get t) ok)
    (hok : ∀ a u b v, ok a u b v → ok' a (put u s) b (put v t)) :
    Together (Linkage.focus get put fault x) s (Linkage.focus get put fault' y) t ok' := by
  unfold Together at *
  rw [completed_focus, completed_focus]
  generalize completed x (get s) = p at h ⊢
  generalize completed y (get t) = q at h ⊢
  cases h with
  | none => exact .none
  | some h => exact .some (hok _ _ _ _ h)

/-- What one run ensures by itself goes with what relates the two. -/
theorem and_ensures {left : α → σ → Prop} {err : ε → σ → Prop} (h : Together x s y t ok) (hleft : Ensures x s left err) :
    Together x s y t fun a s' b t' => ok a s' b t' ∧ left a s' := by
  have hview : ∀ end', completed x s = some end' → left end'.1 end'.2 := by
    intro end' hend
    unfold completed at hend
    split at hend
    · rename_i hrun
      cases hend
      exact hleft.of_ok hrun
    · cases hend
  unfold Together at *
  generalize completed x s = p at h hview ⊢
  generalize completed y t = q at h ⊢
  cases h with
  | none => exact .none
  | some h => exact .some ⟨h, hview _ rfl⟩

end Together

end Linkage
