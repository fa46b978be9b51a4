import Linkage.Focus

/-!
# What a step ensures

`Ensures step s ok err` says of one run of a step, from the state `s`, what holds of its answer and the state behind it, and what
holds of its fault and the state that the fault leaves. There is one equation for each way to build a step, so that a statement
about a composed step comes apart into statements about its parts, and `Ensures.mono` puts the statement of a part in its place.

Most steps only move the state in one direction, and do so also when they fail. `Moves R step s view` says that for a relation `R` of
states.
-/

namespace Linkage

variable {ε ε' σ τ α β : Type}

/-- From the state `s`, the step ends in an answer and a state that satisfy `ok`, or in a fault and a state that satisfy `err`. -/
def Ensures (step : EStateM ε σ α) (s : σ) (ok : α → σ → Prop) (err : ε → σ → Prop) : Prop :=
  match step s with
  | .ok a t => ok a t
  | .error e t => err e t

namespace Ensures

variable {step : EStateM ε σ α} {s : σ} {ok ok' : α → σ → Prop} {err err' : ε → σ → Prop}

/-- What is ensured holds of the answer of a run. -/
theorem of_ok (h : Ensures step s ok err) {a : α} {t : σ} (hrun : step s = .ok a t) : ok a t := by
  unfold Ensures at h
  rw [hrun] at h
  exact h

/-- What is ensured holds of the fault of a run. -/
theorem of_error (h : Ensures step s ok err) {e : ε} {t : σ} (hrun : step s = .error e t) : err e t := by
  unfold Ensures at h
  rw [hrun] at h
  exact h

/-- A step ensures what holds of each of its two ends. -/
theorem intro (hok : ∀ a t, step s = .ok a t → ok a t) (herr : ∀ e t, step s = .error e t → err e t) :
    Ensures step s ok err := by
  unfold Ensures
  split
  · rename_i a t h
    exact hok a t h
  · rename_i e t h
    exact herr e t h

/-- What follows from something ensured is ensured. -/
theorem mono (h : Ensures step s ok err) (hok : ∀ a t, ok a t → ok' a t) (herr : ∀ e t, err e t → err' e t) :
    Ensures step s ok' err' :=
  intro (fun a t hrun => hok a t (h.of_ok hrun)) (fun e t hrun => herr e t (h.of_error hrun))

/-- What is ensured twice over is ensured together. -/
theorem and (h : Ensures step s ok err) (h' : Ensures step s ok' err') :
    Ensures step s (fun a t => ok a t ∧ ok' a t) (fun e t => err e t ∧ err' e t) :=
  intro (fun _ _ hrun => ⟨h.of_ok hrun, h'.of_ok hrun⟩) (fun _ _ hrun => ⟨h.of_error hrun, h'.of_error hrun⟩)

/-- Nothing is asked of the ends. -/
theorem any (step : EStateM ε σ α) (s : σ) : Ensures step s (fun _ _ => True) (fun _ _ => True) :=
  intro (fun _ _ _ => trivial) (fun _ _ _ => trivial)

/-- What holds of the state behind a step, however it ends. -/
theorem snd_runStep {view : σ → Prop} (h : Ensures step s (fun _ t => view t) fun _ t => view t) : view (runStep step s).2 := by
  unfold runStep
  split
  · rename_i hrun
    exact h.of_ok hrun
  · rename_i hrun
    exact h.of_error hrun

end Ensures

section Equations

variable {s : σ} {err : ε → σ → Prop}

/-- An answer leaves the state as it is. -/
@[simp] theorem ensures_pure {a : α} {ok : α → σ → Prop} : Ensures (pure a : EStateM ε σ α) s ok err ↔ ok a s :=
  Iff.rfl

/-- A fault leaves the state as it is. -/
@[simp] theorem ensures_throw {e : ε} {ok : α → σ → Prop} : Ensures (throw e : EStateM ε σ α) s ok err ↔ err e s :=
  Iff.rfl

/-- The state itself is the answer. -/
@[simp] theorem ensures_get {ok : σ → σ → Prop} : Ensures (get : EStateM ε σ σ) s ok err ↔ ok s s :=
  Iff.rfl

/-- The state behind a change is the changed one. -/
@[simp] theorem ensures_modify {f : σ → σ} {ok : PUnit → σ → Prop} :
    Ensures (modify f : EStateM ε σ PUnit) s ok err ↔ ok ⟨⟩ (f s) :=
  Iff.rfl

/-- One step after another: the second starts where the first ends. -/
@[simp] theorem ensures_bind {x : EStateM ε σ α} {f : α → EStateM ε σ β} {ok : β → σ → Prop} :
    Ensures (x >>= f) s ok err ↔ Ensures x s (fun a t => Ensures (f a) t ok err) err := by
  change Ensures (EStateM.bind x f) s ok err ↔ _
  unfold Ensures EStateM.bind
  cases x s <;> rfl

/-- A check answers, or fails, and leaves the state as it is. -/
@[simp] theorem ensures_answer {r : Except ε α} {ok : α → σ → Prop} :
    Ensures (answer r : EStateM ε σ α) s ok err ↔ (∀ a, r = .ok a → ok a s) ∧ ∀ e, r = .error e → err e s := by
  cases r <;> simp [answer]

theorem ensures_answer_ok {a : α} {ok : α → σ → Prop} : Ensures (answer (.ok a) : EStateM ε σ α) s ok err ↔ ok a s :=
  Iff.rfl

theorem ensures_answer_error {e : ε} {ok : α → σ → Prop} : Ensures (answer (.error e) : EStateM ε σ α) s ok err ↔ err e s :=
  Iff.rfl

/-- What a check answers is not changed by naming its fault otherwise. -/
theorem mapError_eq_ok {r : Except ε α} {f : ε → ε'} {a : α} : r.mapError f = .ok a ↔ r = .ok a := by
  cases r with
  | ok b =>
    constructor
    · intro h
      cases h
      rfl
    · intro h
      cases h
      rfl
  | error what =>
    constructor
    · intro h
      cases h
    · intro h
      cases h

/-- A check that fails under the name of another fault failed before it was named. -/
theorem mapError_eq_error {r : Except ε α} {f : ε → ε'} {e : ε'} :
    r.mapError f = .error e ↔ ∃ what, r = .error what ∧ f what = e := by
  cases r with
  | ok b =>
    constructor
    · intro h
      cases h
    · rintro ⟨what, hr, -⟩
      cases hr
  | error what =>
    constructor
    · intro h
      cases h
      exact ⟨what, rfl, rfl⟩
    · rintro ⟨_, hr, rfl⟩
      cases hr
      rfl

/-- A step on a part of the state: what holds of the part when it is put back. -/
@[simp] theorem ensures_focus {get : σ → τ} {put : τ → σ → σ} {fault : ε' → ε} {step : EStateM ε' τ α} {ok : α → σ → Prop} :
    Ensures (focus get put fault step) s ok err ↔
      Ensures step (get s) (fun a t => ok a (put t s)) (fun e t => err (fault e) (put t s)) := by
  unfold Ensures focus
  cases step (get s) <;> rfl

end Equations

section Runs

variable {s t : σ} {x : EStateM ε σ α} {f : α → EStateM ε σ β}

/-- One step after another comes to an answer when the first does, and the second does from there. -/
theorem bind_run_eq_ok_iff {b : β} : (x >>= f) s = .ok b t ↔ ∃ a m, x s = .ok a m ∧ f a m = .ok b t := by
  change EStateM.bind x f s = _ ↔ _
  unfold EStateM.bind
  cases x s <;> simp [and_assoc]

/-- One step after another fails when the first does, or the second does where the first ends. -/
theorem bind_run_eq_error_iff {e : ε} :
    (x >>= f) s = .error e t ↔ x s = .error e t ∨ ∃ a m, x s = .ok a m ∧ f a m = .error e t := by
  change EStateM.bind x f s = _ ↔ _
  unfold EStateM.bind
  cases x s <;> simp [and_assoc]

end Runs

/-- What the last step ensures from wherever it starts, as far as answers go, the whole ensures. -/
theorem Ensures.last {s : σ} {x : EStateM ε σ α} {f : α → EStateM ε σ β} {ok : β → σ → Prop}
    (h : ∀ a t, Ensures (f a) t ok (fun _ _ => True)) : Ensures (x >>= f) s ok (fun _ _ => True) :=
  ensures_bind.mpr ((Ensures.any x s).mono (fun a t _ => h a t) (fun _ _ _ => trivial))

/-! ## Steps that move the state in one direction -/

/-- However the step ends, the state behind it is one that `R` leads to from `s`, and an answer satisfies `view` there. -/
def Moves (R : σ → σ → Prop) (step : EStateM ε σ α) (s : σ) (view : α → σ → Prop) : Prop :=
  Ensures step s (fun a t => R s t ∧ view a t) (fun _ t => R s t)

namespace Moves

variable {R : σ → σ → Prop} {s : σ}

/-- Two steps in one direction, one after the other. -/
theorem bind (htrans : ∀ a b c, R a b → R b c → R a c) {x : EStateM ε σ α} {f : α → EStateM ε σ β} {φ : α → σ → Prop}
    {ψ : β → σ → Prop} (hx : Moves R x s φ) (hf : ∀ a t, R s t → φ a t → Moves R (f a) t ψ) : Moves R (x >>= f) s ψ := by
  unfold Moves
  rw [ensures_bind]
  refine Ensures.mono hx ?_ (fun _ _ h => h)
  intro a t hview
  obtain ⟨hst, ha⟩ := hview
  exact Ensures.mono (hf a t hst ha) (fun _ _ h => ⟨htrans _ _ _ hst h.1, h.2⟩) (fun _ _ h => htrans _ _ _ hst h)

/-- What follows from what a step answers may be seen instead. -/
theorem mono {x : EStateM ε σ α} {φ ψ : α → σ → Prop} (hx : Moves R x s φ) (h : ∀ a t, R s t → φ a t → ψ a t) :
    Moves R x s ψ :=
  Ensures.mono hx (fun a t ha => ⟨ha.1, h a t ha.1 ha.2⟩) (fun _ _ he => he)

/-- A step on a part of the state, when moving the part moves the whole. -/
theorem focus {S : τ → τ → Prop} {get : σ → τ} {put : τ → σ → σ} {fault : ε' → ε} {step : EStateM ε' τ α} {φ : α → τ → Prop}
    {ψ : α → σ → Prop} (h : Moves S step (get s) φ) (hput : ∀ t, S (get s) t → R s (put t s))
    (hview : ∀ a t, φ a t → ψ a (put t s)) : Moves R (Linkage.focus get put fault step) s ψ := by
  unfold Moves
  rw [ensures_focus]
  exact Ensures.mono h (fun a t ha => ⟨hput t ha.1, hview a t ha.2⟩) (fun _ t ht => hput t ht)

/-- Reading the state leaves it where it is. -/
theorem get (hrefl : R s s) : Moves R (get : EStateM ε σ σ) s fun a t => s = a ∧ s = t :=
  ⟨hrefl, rfl, rfl⟩

/-- An answer that is there already leaves the state where it is. -/
theorem answer (hrefl : R s s) (r : Except ε α) : Moves R (Linkage.answer r) s fun a t => s = t ∧ r = .ok a := by
  unfold Moves
  rw [ensures_answer]
  exact ⟨fun _ h => ⟨hrefl, rfl, h⟩, fun _ _ => hrefl⟩

end Moves

end Linkage
