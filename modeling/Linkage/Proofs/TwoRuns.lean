import Linkage.Proofs.Step

/-!
# Two runs side by side

`Alike` compares two runs, each of its own step from its own state: both end in answers, and then answers and states are related, or both
end in the same fault. Runs out of room are set aside: where one of the two ends in a fault that `excused` names, nothing is said. The
rules are those of one run, for both at a time.

Most steps that write have no answer. `Parallel R R' x y` says of two such steps that they end alike from any states that `R` relates, and
that `R'` relates the states behind them.
-/

namespace Linkage

variable {ε ε' σ τ α β : Type}

/-- Both runs end in answers that are related, in states that are related, or both end in the same fault; unless one of them ends in an
excused fault. -/
def Alike (excused : ε → Prop) (x : EStateM ε σ α) (s : σ) (y : EStateM ε σ α) (t : σ) (ok : α → σ → α → σ → Prop) : Prop :=
  match x s, y t with
  | .ok a s', .ok b t' => ok a s' b t'
  | .error e _, .error e' _ => e = e' ∨ excused e ∨ excused e'
  | .error e _, .ok _ _ => excused e
  | .ok _ _, .error e' _ => excused e'

namespace Alike

variable {excused : ε → Prop} {x y : EStateM ε σ α} {s t : σ} {ok ok' : α → σ → α → σ → Prop}

/-- Runs that end alike are related in whatever follows. -/
theorem mono (h : Alike excused x s y t ok) (hok : ∀ a s' b t', ok a s' b t' → ok' a s' b t') : Alike excused x s y t ok' := by
  unfold Alike at h ⊢
  split
  · rename_i hx hy
    rw [hx, hy] at h
    exact hok _ _ _ _ h
  all_goals
    rename_i hx hy
    rw [hx, hy] at h
    exact h

/-- One step after another, in both runs. -/
theorem bind {f g : α → EStateM ε σ β} {ok'' : β → σ → β → σ → Prop} (h : Alike excused x s y t ok)
    (hnext : ∀ a s' b t', ok a s' b t' → Alike excused (f a) s' (g b) t' ok'') :
    Alike excused (x >>= f) s (y >>= g) t ok'' := by
  change Alike excused (EStateM.bind x f) s (EStateM.bind y g) t ok''
  unfold Alike EStateM.bind at *
  cases hx : x s with
  | ok a s' =>
    cases hy : y t with
    | ok b t' =>
      rw [hx, hy] at h
      exact hnext a s' b t' h
    | error e' t' =>
      rw [hx, hy] at h
      dsimp only
      split <;> simp_all
  | error e s' =>
    cases hy : y t with
    | ok b t' =>
      rw [hx, hy] at h
      dsimp only
      split <;> simp_all
    | error e' t' =>
      rw [hx, hy] at h
      exact h

/-- The same fault. -/
theorem throw (excused : ε → Prop) (e : ε) (s t : σ) (ok : α → σ → α → σ → Prop) :
    Alike excused (throw e : EStateM ε σ α) s (throw e) t ok :=
  .inl rfl

/-- Both steps read their own state first. -/
theorem get_bind {f g : σ → EStateM ε σ β} {ok : β → σ → β → σ → Prop} (h : Alike excused (f s) s (g t) t ok) :
    Alike excused (get >>= f) s (get >>= g) t ok :=
  h

/-- Both steps have the same answer or fault first. -/
theorem answer_bind {r : Except ε α} {f g : α → EStateM ε σ β} {ok : β → σ → β → σ → Prop}
    (h : ∀ a, r = .ok a → Alike excused (f a) s (g a) t ok) :
    Alike excused (Linkage.answer r >>= f) s (Linkage.answer r >>= g) t ok := by
  cases r with
  | ok a => exact h a rfl
  | error e => exact .inl rfl

/-- Steps on a part of the state. -/
theorem focus {excused' : ε' → Prop} {get : σ → τ} {put : τ → σ → σ} {fault : ε' → ε} {x y : EStateM ε' τ α}
    {ok : α → τ → α → τ → Prop} {ok' : α → σ → α → σ → Prop} (h : Alike excused' x (get s) y (get t) ok)
    (hexcused : ∀ e, excused' e → excused (fault e)) (hok : ∀ a u b v, ok a u b v → ok' a (put u s) b (put v t)) :
    Alike excused (Linkage.focus get put fault x) s (Linkage.focus get put fault y) t ok' := by
  unfold Alike Linkage.focus at *
  cases hx : x (get s) with
  | ok a u =>
    cases hy : y (get t) with
    | ok b v =>
      rw [hx, hy] at h
      exact hok a u b v h
    | error e' v =>
      rw [hx, hy] at h
      exact hexcused _ h
  | error e u =>
    cases hy : y (get t) with
    | ok b v =>
      rw [hx, hy] at h
      exact hexcused _ h
    | error e' v =>
      rw [hx, hy] at h
      exact h.imp (congrArg fault) (Or.imp (hexcused _) (hexcused _))

/-- Runs that only fail with excused faults. -/
theorem of_ensures {left right : α → σ → Prop} (hleft : Ensures x s left fun e _ => excused e)
    (hright : Ensures y t right fun e _ => excused e) : Alike excused x s y t fun a s' b t' => left a s' ∧ right b t' := by
  unfold Alike
  split
  · rename_i hx hy
    exact ⟨hleft.of_ok hx, hright.of_ok hy⟩
  · rename_i hx hy
    exact .inr (.inl (hleft.of_error hx))
  · rename_i hx hy
    exact hleft.of_error hx
  · rename_i hx hy
    exact hright.of_error hy

/-- What each run ensures by itself goes with what relates them. -/
theorem and_ensures {left right : α → σ → Prop} {err err' : ε → σ → Prop} (h : Alike excused x s y t ok) (hleft : Ensures x s left err)
    (hright : Ensures y t right err') :
    Alike excused x s y t fun a s' b t' => ok a s' b t' ∧ left a s' ∧ right b t' := by
  unfold Alike at *
  split
  · rename_i hx hy
    rw [hx, hy] at h
    exact ⟨h, hleft.of_ok hx, hright.of_ok hy⟩
  all_goals
    rename_i hx hy
    rw [hx, hy] at h
    exact h

/-- Where neither run ends in an excused fault, both end in answers that are related, or both in the same fault. -/
theorem ends {left right : α → σ → Prop} (h : Alike excused x s y t ok) (hleft : Ensures x s left fun e _ => ¬ excused e)
    (hright : Ensures y t right fun e _ => ¬ excused e) :
    (∃ a s' b t', x s = .ok a s' ∧ y t = .ok b t' ∧ ok a s' b t') ∨ ∃ e s' t', x s = .error e s' ∧ y t = .error e t' := by
  unfold Alike at h
  split at h
  · rename_i a s' b t' hx hy
    exact .inl ⟨a, s', b, t', hx, hy, h⟩
  · rename_i e s' e' t' hx hy
    rcases h with rfl | he | he
    · exact .inr ⟨e, s', t', hx, hy⟩
    · exact absurd he (hleft.of_error hx)
    · exact absurd he (hright.of_error hy)
  · rename_i hx hy
    exact absurd h (hleft.of_error hx)
  · rename_i hx hy
    exact absurd h (hright.of_error hy)

end Alike

/-- From states that `R` relates the two steps end alike, in states that `R'` relates. -/
def Parallel (excused : ε → Prop) (R R' : σ → σ → Prop) (x y : EStateM ε σ Unit) : Prop :=
  ∀ s t, R s t → Alike excused x s y t fun _ s' _ t' => R' s' t'

namespace Parallel

variable {excused : ε → Prop} {R R' R'' : σ → σ → Prop} {x y x' y' : EStateM ε σ Unit}

/-- Two steps that do nothing leave the states as they are related. -/
theorem pure (excused : ε → Prop) (R : σ → σ → Prop) : Parallel excused R R (pure ()) (pure ()) :=
  fun _ _ h => h

/-- The same fault on both sides, whatever is asked of the states behind. -/
theorem throw (excused : ε → Prop) (R R' : σ → σ → Prop) (e : ε) : Parallel excused R R' (throw e) (throw e) :=
  fun s t _ => .throw excused e s t _

/-- After a fault nothing follows. -/
theorem throw_bind (excused : ε → Prop) (R R' : σ → σ → Prop) (e : ε) (f g : α → EStateM ε σ Unit) :
    Parallel excused R R' (MonadExcept.throw e >>= f) (MonadExcept.throw e >>= g) :=
  fun s t _ => Alike.throw excused e s t _

/-- The states are modified on both sides, in step. -/
theorem modify {f g : σ → σ} (h : ∀ s t, R s t → R' (f s) (g t)) : Parallel excused R R' (modify f) (modify g) :=
  fun s t hst => h s t hst

/-- The states behind are related in whatever follows. -/
theorem mono (h : Parallel excused R R' x y) (hmono : ∀ s t, R' s t → R'' s t) : Parallel excused R R'' x y :=
  fun s t hst => (h s t hst).mono fun _ s' _ t' => hmono s' t'

/-- One step after another, on both sides. -/
theorem seq (h : Parallel excused R R' x y) (h' : Parallel excused R' R'' x' y') :
    Parallel excused R R'' (x >>= fun _ => x') (y >>= fun _ => y') :=
  fun s t hst => (h s t hst).bind fun _ s' _ t' hst' => h' s' t' hst'

end Parallel

end Linkage
