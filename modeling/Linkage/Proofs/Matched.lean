import Linkage.Proofs.Together

/-!
# Runs that match

Two programs may differ in something that no decision looks at. Their runs then fail together, leave states behind that are related also
when they fail, and their answers and faults are the same but for what may differ. `Matched` says so of two runs, each of its own step from
its own state. `Indistinct view x y` says of two steps that they come to the same from every state, where of a fault only `view` is seen.
-/

namespace Linkage

variable {ε ε' φ σ τ α β : Type}

/-- Both are answers that are related, with states that are related, or both are faults that are, with states that are. -/
inductive EndRel (ok : α → σ → α → σ → Prop) (err : ε → σ → ε → σ → Prop) : EStateM.Result ε σ α → EStateM.Result ε σ α → Prop where
  | ok {a : α} {s : σ} {b : α} {t : σ} (h : ok a s b t) : EndRel ok err (.ok a s) (.ok b t)
  | error {e : ε} {s : σ} {e' : ε} {t : σ} (h : err e s e' t) : EndRel ok err (.error e s) (.error e' t)

/-- Both runs end in answers that are related, in states that are related, or both end in faults that are, in states that are. -/
def Matched (x : EStateM ε σ α) (s : σ) (y : EStateM ε σ α) (t : σ) (ok : α → σ → α → σ → Prop) (err : ε → σ → ε → σ → Prop) : Prop :=
  EndRel ok err (x s) (y t)

namespace Matched

variable {x y : EStateM ε σ α} {s t : σ} {ok ok' : α → σ → α → σ → Prop} {err err' : ε → σ → ε → σ → Prop}

/-- What is related follows from what is related more closely. -/
theorem mono (h : Matched x s y t ok err) (hok : ∀ a s' b t', ok a s' b t' → ok' a s' b t')
    (herr : ∀ e s' e' t', err e s' e' t' → err' e s' e' t') : Matched x s y t ok' err' := by
  unfold Matched at *
  generalize x s = p at h ⊢
  generalize y t = q at h ⊢
  cases h with
  | ok h => exact .ok (hok _ _ _ _ h)
  | error h => exact .error (herr _ _ _ _ h)

/-- Answers and states that are related already. -/
theorem pure {a b : α} (h : ok a s b t) : Matched (pure a : EStateM ε σ α) s (pure b) t ok err :=
  .ok h

/-- Faults and states that are related already. -/
theorem throw {e e' : ε} (h : err e s e' t) : Matched (throw e : EStateM ε σ α) s (throw e') t ok err :=
  .error h

/-- One step after another, in both runs. -/
theorem bind {f g : α → EStateM ε σ β} {ok'' : β → σ → β → σ → Prop} (h : Matched x s y t ok err)
    (hnext : ∀ a s' b t', ok a s' b t' → Matched (f a) s' (g b) t' ok'' err) : Matched (x >>= f) s (y >>= g) t ok'' err := by
  change EndRel ok'' err (EStateM.bind x f s) (EStateM.bind y g t)
  unfold EStateM.bind
  unfold Matched at h
  generalize x s = p at h ⊢
  generalize y t = q at h ⊢
  cases h with
  | ok h => exact hnext _ _ _ _ h
  | error h => exact .error h

/-- A run matches itself. -/
theorem refl (x : EStateM ε σ α) (s : σ) :
    Matched x s x s (fun a s' b t' => a = b ∧ s' = t') fun e s' e' t' => e = e' ∧ s' = t' := by
  unfold Matched
  cases x s with
  | ok a s' => exact .ok ⟨rfl, rfl⟩
  | error e s' => exact .error ⟨rfl, rfl⟩

/-- Both steps read their own state first. -/
theorem get_bind {f g : σ → EStateM ε σ β} {ok : β → σ → β → σ → Prop} (h : Matched (f s) s (g t) t ok err) :
    Matched (get >>= f) s (get >>= g) t ok err :=
  h

/-- Answers or faults that are there already and look the same. -/
theorem answer {γ : Type} {view : α → γ} {viewFault : ε → φ} {r r' : Except ε α}
    (h : view <$> r.mapError viewFault = view <$> r'.mapError viewFault) (s : σ) :
    Matched (answer r) s (answer r') s (fun a s' b t' => view a = view b ∧ s = s' ∧ s = t')
      fun e s' e' t' => viewFault e = viewFault e' ∧ s' = t' := by
  cases r with
  | ok a =>
    cases r' with
    | ok b => exact .ok ⟨Except.ok.inj h, rfl, rfl⟩
    | error e' => cases h
  | error e =>
    cases r' with
    | ok b => cases h
    | error e' => exact .error ⟨Except.error.inj h, rfl⟩

/-- One step on a part that the states share. -/
theorem focus {get : σ → τ} {put : τ → σ → σ} {fault : ε' → ε} {step : EStateM ε' τ α} {R : σ → σ → Prop} (h : get s = get t)
    (hput : ∀ u, R (put u s) (put u t)) :
    Matched (Linkage.focus get put fault step) s (Linkage.focus get put fault step) t (fun a s' b t' => a = b ∧ R s' t')
      fun e s' e' t' => e = e' ∧ R s' t' := by
  unfold Matched Linkage.focus
  rw [h]
  cases step (get t) with
  | ok a u => exact .ok ⟨rfl, hput u⟩
  | error e u => exact .error ⟨rfl, hput u⟩

/-- Faults apart, runs that match succeed together. -/
theorem together (h : Matched x s y t ok err) : Together x s y t ok := by
  unfold Matched at h
  unfold Together completed
  generalize x s = p at h ⊢
  generalize y t = q at h ⊢
  cases h with
  | ok h => exact .some h
  | error h => exact .none

end Matched

/-! ## Checks -/

/-- What is done to an answer does not matter to the fault. -/
theorem mapError_map (f : α → β) (view : ε → φ) (r : Except ε α) : (f <$> r).mapError view = f <$> r.mapError view := by
  cases r <;> rfl

/-- The fault does not matter to the answer. -/
theorem toOption_mapError (view : ε → φ) (r : Except ε α) : (r.mapError view).toOption = r.toOption := by
  cases r <;> rfl

/-! ## Two steps -/

/-- The answer of a run, or what is seen of its fault, and the state behind it. -/
def shown (view : ε → φ) (step : EStateM ε σ α) (s : σ) : Except φ α × σ :=
  match step s with
  | .ok a t => (.ok a, t)
  | .error e t => (.error (view e), t)

section Equations

variable {view : ε → φ} {s : σ}

/-- One step after another: the second is run when the first has an answer. -/
theorem shown_bind (x : EStateM ε σ α) (f : α → EStateM ε σ β) :
    shown view (x >>= f) s =
      match shown view x s with
      | (.ok a, t) => shown view (f a) t
      | (.error e, t) => (.error e, t) := by
  change shown view (EStateM.bind x f) s = _
  unfold shown EStateM.bind
  cases x s <;> rfl

/-- An answer that is there already is shown as it is. -/
theorem shown_answer (r : Except ε α) : shown view (answer r) s = (r.mapError view, s) := by
  cases r <;> rfl

end Equations

/-- From every state both steps succeed, with the same answer, or both fail, with faults that look the same, and leave the same state. -/
def Indistinct (view : ε → φ) (x y : EStateM ε σ α) : Prop :=
  ∀ s, shown view x s = shown view y s

namespace Indistinct

variable {view : ε → φ} {x y z : EStateM ε σ α}

/-- A step shows what it shows. -/
theorem refl (view : ε → φ) (x : EStateM ε σ α) : Indistinct view x x :=
  fun _ => rfl

/-- Showing the same goes both ways. -/
theorem symm (h : Indistinct view x y) : Indistinct view y x :=
  fun s => (h s).symm

/-- Showing the same goes on from one step to the next. -/
theorem trans (h : Indistinct view x y) (h' : Indistinct view y z) : Indistinct view x z :=
  fun s => (h s).trans (h' s)

/-- Faults that show the same. -/
theorem throw {e e' : ε} (h : view e = view e') : Indistinct view (throw e : EStateM ε σ α) (throw e') := by
  intro s
  change (Except.error (view e), s) = (Except.error (view e'), s)
  rw [h]

/-- Two steps one after the other, each of which shows the same. -/
theorem bind {f g : α → EStateM ε σ β} (h : Indistinct view x y) (hnext : ∀ a, Indistinct view (f a) (g a)) :
    Indistinct view (x >>= f) (y >>= g) := by
  intro s
  rw [shown_bind, shown_bind, h s]
  split
  · exact hnext _ _
  · rfl

/-- A common first step. -/
theorem after (x : EStateM ε σ α) {f g : α → EStateM ε σ β} (hnext : ∀ a, Indistinct view (f a) (g a)) :
    Indistinct view (x >>= f) (x >>= g) :=
  (refl view x).bind hnext

/-- Answers that are there already, with faults that show the same. -/
theorem answer {r r' : Except ε α} (h : r.mapError view = r'.mapError view) :
    Indistinct view (Linkage.answer r : EStateM ε σ α) (Linkage.answer r') := by
  intro s
  rw [shown_answer, shown_answer, h]

/-- Such steps, run from one state, match. -/
theorem matched (h : Indistinct view x y) (s : σ) :
    Matched x s y s (fun a s' b t' => a = b ∧ s' = t') fun e s' e' t' => view e = view e' ∧ s' = t' := by
  have hs := h s
  unfold shown at hs
  unfold Matched
  cases hx : x s with
  | ok a s' =>
    cases hy : y s with
    | ok b t' =>
      refine .ok ?_
      simp_all
    | error e' t' => simp_all
  | error e s' =>
    cases hy : y s with
    | ok b t' => simp_all
    | error e' t' =>
      refine .error ?_
      simp_all

end Indistinct

end Linkage
