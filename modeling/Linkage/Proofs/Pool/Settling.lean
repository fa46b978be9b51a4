import Linkage.Proofs.Pool.View
import Linkage.Proofs.Step

/-!
# Steps with nothing left to do

An entry that is added to a table twice is stored once: the second time its index is answered and the table stays as it is.
`Settles part R spared step` carries this over to steps that add several entries. The step only extends the part of the state that
holds the table, also when it fails; and once it has come to an end, it finds all it needs in every extension of the table, gives
the same answer and adds nothing.
-/

namespace Linkage

variable {ε ε' σ τ τ' α β : Type}

/-- The step only extends a part of the state. Run again wherever that part has been extended further, it leaves the part alone and
answers what it has answered before; it may fail then only with a fault that is spared, for a reason outside the part. -/
def Settles (part : σ → τ) (R : τ → τ → Prop) (spared : ε → Prop) (step : EStateM ε σ α) : Prop :=
  ∀ s, Moves (fun s t => R (part s) (part t)) step s fun a t => ∀ u, R (part t) (part u) →
    Ensures step u (fun b v => b = a ∧ part v = part u) (fun fault v => spared fault ∧ part v = part u)

namespace Settles

variable {part : σ → τ} {R : τ → τ → Prop} {spared : ε → Prop}

/-- A step that does not touch the part, and of which one good end says that all others are good and have the same answer. -/
theorem untouched (hrefl : ∀ t, R t t) {step : EStateM ε σ α} (hsame : ∀ s, Ensures step s (fun _ t => part t = part s)
      fun _ t => part t = part s)
    (hagain : ∀ s a t, step s = .ok a t → ∀ u, Ensures step u (fun b _ => b = a) fun fault _ => spared fault) :
    Settles part R spared step := by
  have hext : ∀ s t, part t = part s → R (part s) (part t) := fun s t heq => by rw [heq]; exact hrefl _
  intro s
  refine Ensures.intro (fun a t hrun => ⟨hext s t ((hsame s).of_ok hrun), fun u _ => ?_⟩) fun _ t hrun => hext s t ((hsame s).of_error hrun)
  exact (hagain s a t hrun u).and (hsame u)

/-- Doing nothing leaves nothing to do. -/
theorem pure (hrefl : ∀ t, R t t) (a : α) : Settles part R spared (Pure.pure a : EStateM ε σ α) :=
  fun _ => ⟨hrefl _, fun _ _ => ⟨rfl, rfl⟩⟩

/-- A step that fails never comes to its end. -/
theorem throw (hrefl : ∀ t, R t t) (fault : ε) : Settles part R spared (MonadExcept.throw fault : EStateM ε σ α) :=
  fun _ => hrefl _

/-- Two steps, one after the other: the second time, the first step leads the second to where it has nothing left to do. -/
theorem bind (htrans : ∀ a b c, R a b → R b c → R a c) {x : EStateM ε σ α} {f : α → EStateM ε σ β}
    (hx : Settles part R spared x) (hf : ∀ a, Settles part R spared (f a)) : Settles part R spared (x >>= f) := by
  intro s
  refine Moves.bind (R := fun s t => R (part s) (part t)) (fun _ _ _ => htrans _ _ _) (hx s) fun a t _ hagain => ?_
  refine (hf a t).mono ?_
  intro b t' htt' hb u hu
  rw [ensures_bind]
  refine (hagain u (htrans _ _ _ htt' hu)).mono ?_ (fun _ _ h => h)
  rintro _ v ⟨rfl, huv⟩
  refine (hb v (huv ▸ hu)).mono ?_ ?_
  · exact fun _ w hw => ⟨hw.1, hw.2.trans huv⟩
  · exact fun _ w hw => ⟨hw.1, hw.2.trans huv⟩

/-- A step on a component of the state that holds the table. -/
theorem focus {R' : τ' → τ' → Prop} {part' : σ → τ'} {get : σ → τ} {put : τ → σ → σ} {fault : ε' → ε} {step : EStateM ε' τ α}
    (hstep : Settles id R (fun _ => False) step) (hput : ∀ s t, R (get s) t → R' (part' s) (part' (put t s)))
    (hget : ∀ s u t, R' (part' (put t s)) (part' u) → R t (get u)) (hsame : ∀ u, part' (put (get u) u) = part' u) :
    Settles part' R' spared (Linkage.focus get put fault step) := by
  intro s
  refine Moves.focus (hstep (get s)) (fun t ht => hput s t ht) ?_
  intro a t hagain u hu
  rw [ensures_focus]
  refine (hagain (get u) (hget s u t hu)).mono ?_ (fun _ _ h => h.1.elim)
  rintro b _ ⟨hb, rfl⟩
  exact ⟨hb, hsame u⟩

end Settles

/-- What is found first in a table is found first in every extension of it. -/
theorem findIdx?_of_extended {xs ys : Array α} (h : xs.toList <+: ys.toList) {p : α → Bool} {i : Nat} (hi : xs.findIdx? p = some i) :
    ys.findIdx? p = some i := by
  obtain ⟨rest, hrest⟩ := h
  have hys : ys = xs ++ rest.toArray := Array.toList_inj.mp (by simp [hrest])
  rw [hys, Array.findIdx?_append, hi]
  rfl

/-! ## Pools -/

namespace Pool

/-- A step on pools that finds what it has added in every later pool. -/
abbrev Settles (step : Step α) : Prop :=
  Linkage.Settles id Extends (fun _ => False) step

/-- Two steps on the pool, one after the other. -/
theorem Settles.bind {x : Step α} {f : α → Step β} (hx : Settles x) (hf : ∀ a, Settles (f a)) : Settles (x >>= f) :=
  Linkage.Settles.bind (R := Extends) (fun _ _ _ => Extends.trans) hx hf

/-- An entry that stands in a pool is found at the same place in every extension. -/
theorem add_eq_ok {p q : Pool} (h : p.Extends q) {c : Constant} {i : Nat} (hi : p.entries.findIdx? (· = c) = some i) :
    add c q = .ok (i + 1).toUInt16 q := by
  unfold add
  rw [findIdx?_of_extended h hi]

/-- A constant that was added is found the next time. -/
theorem settles_add (c : Constant) : Settles (add c) := by
  have hagain : ∀ {p : Pool} {i : Nat}, p.entries.findIdx? (· = c) = some i →
      ∀ q, p.Extends q → Ensures (add c) q (fun b v => b = (i + 1).toUInt16 ∧ v = q) fun _ v => False ∧ v = q := by
    intro p i hi q hq
    unfold Ensures
    rw [add_eq_ok hq hi]
    exact ⟨rfl, rfl⟩
  intro p
  unfold Moves Ensures
  cases hfind : p.entries.findIdx? (· = c) with
  | some i =>
    rw [add_eq_ok (.refl p) hfind]
    exact ⟨.refl p, hagain hfind⟩
  | none =>
    have hplace : (p.entries.push c).findIdx? (· = c) = some p.entries.size := by
      rw [Array.findIdx?_push, hfind]
      simp
    unfold add
    rw [hfind]
    by_cases hroom : p.entries.size < capacity
    · simp only [if_pos hroom]
      exact ⟨extends_push p c, hagain (p := ⟨p.entries.push c⟩) hplace⟩
    · simp only [if_neg hroom]
      exact .refl p

/-- A class that was added is found with its name the next time. -/
theorem settles_addClass (name : String) : Settles (addClass name) :=
  (settles_add _).bind fun _ => settles_add _

/-- A string that was added is found with its text the next time. -/
theorem settles_addString (text : String) : Settles (addString text) :=
  (settles_add _).bind fun _ => settles_add _

/-- A name with a descriptor that was added is found the next time. -/
theorem settles_addNameAndType (name descriptor : String) : Settles (addNameAndType name descriptor) :=
  (settles_add _).bind fun _ => (settles_add _).bind fun _ => settles_add _

/-- A member that was added is found with all its parts the next time. -/
theorem settles_addMember (kind : MemberKind) (owner name descriptor : String) : Settles (addMember kind owner name descriptor) :=
  (settles_addClass owner).bind fun _ => (settles_addNameAndType name descriptor).bind fun _ => settles_add _

/-- A handle that was added is found with its member the next time. -/
theorem settles_addMethodHandle (kind : UInt8) (owner name descriptor : String) (onInterface : Bool) :
    Settles (addMethodHandle kind owner name descriptor onInterface) :=
  (settles_addMember _ owner name descriptor).bind fun _ => settles_add _

/-- A method type that was added is found with its descriptor the next time. -/
theorem settles_addMethodType (descriptor : String) : Settles (addMethodType descriptor) :=
  (settles_add _).bind fun _ => settles_add _

/-- A call site that was added is found with its parts the next time. -/
theorem settles_addInvokeDynamic (bootstrap : UInt16) (name descriptor : String) :
    Settles (addInvokeDynamic bootstrap name descriptor) :=
  (settles_addNameAndType name descriptor).bind fun _ => settles_add _

end Pool

end Linkage
