import Linkage.Proofs.Emission.Receiver
import Linkage.Proofs.Pool.Settling

/-!
# Code that is written again

Written a second time, into whatever buffer, an expression finds all its constants in the pool (`Expr.settles_emit`). The buffer cannot
make the difference either, unless the tracked stack is too short for the code.
-/

namespace Linkage

open Emit

/-- A load is written where its type has values and its slot can be named, whatever the buffer. -/
theorem CodeBuffer.ensures_load_or_unchanged (type : JType) (slot : Nat) (b : CodeBuffer) :
    Ensures (load type slot) b (fun _ _ => type ≠ .void ∧ slot ≤ 255) (fun _ t => (type = .void ∨ 255 < slot) ∧ t = b) := by
  refine (ensures_load type slot b).mono ?_ ?_
  · rintro _ _ ⟨k, entry, c, hk, -, hslot, -, -⟩
    refine ⟨?_, hslot⟩
    rintro rfl
    cases hk
  · rintro _ t ⟨⟨hvoid, -⟩ | ⟨hslot, -⟩, ht⟩
    · exact ⟨.inl hvoid, ht⟩
    · exact ⟨.inr hslot, ht⟩

namespace Emit

variable {α β : Type}

/-- A step that adds to the pool at most once, and fails the second time only for want of entries on the tracked stack. -/
abbrev Settles (step : Emit α) : Prop :=
  Linkage.Settles Emission.pool Pool.Extends (· = .ofCode .stackUnderflow) step

/-- Two steps of emission, one after the other. -/
theorem Settles.bind {x : Emit α} {f : α → Emit β} (hx : Settles x) (hf : ∀ a, Settles (f a)) : Settles (x >>= f) :=
  Linkage.Settles.bind (R := Pool.Extends) (fun _ _ _ => Pool.Extends.trans) hx hf

/-- A step on the pool finds in emission what it finds there. -/
theorem settles_inPool {step : Pool.Step α} (h : Pool.Settles step) : Settles (inPool step) :=
  Linkage.Settles.focus (R := Pool.Extends) h (fun _ _ ht => ht) (fun _ _ _ hu => hu) fun _ => rfl

/-- A step on the buffer whose good end on one buffer says how it ends on all others. -/
theorem settles_inCode {step : CodeBuffer.Step α} (hagain : ∀ b a c, step b = .ok a c →
    ∀ d, Ensures step d (fun a' _ => a' = a) fun fault _ => fault = .stackUnderflow) : Settles (inCode step) := by
  refine Settles.untouched Pool.Extends.refl ?_ ?_
  · intro e
    rw [inCode, ensures_focus]
    exact (Ensures.any step e.code).mono (fun _ _ _ => rfl) (fun _ _ _ => rfl)
  · intro e a t hrun d
    obtain ⟨c, hc⟩ : ∃ c, step e.code = .ok a c := by
      have h : Ensures (inCode step) e (fun a _ => ∃ c, step e.code = .ok a c) fun _ _ => True := by
        rw [inCode, ensures_focus]
        exact Ensures.intro (fun _ c hc => ⟨c, hc⟩) fun _ _ _ => trivial
      exact h.of_ok hrun
    rw [inCode, ensures_focus]
    exact (hagain e.code a c hc d.code).mono (fun _ _ h => h) fun _ _ h => congrArg Fault.ofCode h

/-- A change to the buffer asks nothing of the pool. -/
theorem settles_write (f : CodeBuffer → CodeBuffer) : Settles (write f) :=
  settles_inCode fun _ _ _ _ _ => rfl

/-- A load asks nothing of the pool, and whether it fails does not depend on the buffer. -/
theorem settles_load (type : JType) (slot : Nat) : Settles (inCode (CodeBuffer.load type slot)) := by
  refine settles_inCode fun b a c hrun d => ?_
  obtain ⟨hvoid, hslot⟩ := (CodeBuffer.ensures_load_or_unchanged type slot b).of_ok hrun
  refine (CodeBuffer.ensures_load_or_unchanged type slot d).mono (fun _ _ _ => rfl) ?_
  rintro _ _ ⟨hvoid' | hslot', -⟩
  · exact absurd hvoid' hvoid
  · omega

/-- Popping asks nothing of the pool, and fails only for want of entries. -/
theorem settles_pop (count : Nat) : Settles (inCode (CodeBuffer.pop count)) :=
  settles_inCode fun _ _ _ _ d => (CodeBuffer.ensures_pop count d).mono (fun _ _ _ => rfl) fun _ _ h => h.1

/-- A call asks for its method only. -/
theorem settles_invoke (call : CallKind) (kind : MemberKind) (owner name : String) (params : List JType) (result : JType) :
    Settles (invoke call.opcode kind owner name params result) :=
  (settles_inPool (Pool.settles_addMember _ _ _ _)).bind fun i => settles_inCode fun _ _ _ _ d =>
    (CodeBuffer.ensures_invoke call i params result d).mono (fun _ _ _ => rfl) fun _ _ h => h.1

/-- A field's value asks nothing of the pool. -/
theorem settles_pushField (owner name : String) (type : JType) : Settles (pushField owner name type) := by
  unfold pushField
  split
  · exact settles_write _
  · exact Settles.throw Pool.Extends.refl _

/-- The check of a call asks nothing of the pool. -/
theorem settles_checkCall (owner name : String) (params : List JType) (result : JType) (args : List Expr) :
    Settles (checkCall owner name params result args) := by
  unfold checkCall
  split
  · exact Settles.throw Pool.Extends.refl _
  · split
    · exact Settles.throw Pool.Extends.refl _
    · exact Settles.pure Pool.Extends.refl _

end Emit

/-- A literal asks for one constant at the most, and finds it the next time. -/
theorem Literal.settles_emit (l : Literal) : Emit.Settles l.emit := by
  cases l with
  | integer v =>
    unfold Literal.emit
    dsimp only
    split
    · exact settles_write _
    · split
      · exact settles_write _
      · split
        · exact settles_write _
        · exact (settles_inPool (Pool.settles_add _)).bind fun _ => settles_write _
  | text s => exact (settles_inPool (Pool.settles_addString s)).bind fun _ => settles_write _
  | null => exact settles_write _

mutual

/-- An expression adds its constants once. -/
theorem Expr.settles_emit (x : Expr) : Emit.Settles x.emit := by
  cases x with
  | this type s =>
    rw [Expr.emit]
    exact settles_load type 0
  | localVar name slot type s =>
    rw [Expr.emit]
    exact settles_load type slot
  | literal value s =>
    rw [Expr.emit]
    exact value.settles_emit
  | staticField owner name type s =>
    rw [Expr.emit]
    exact (settles_inPool (Pool.settles_addMember _ _ _ _)).bind fun _ => (settles_write _).bind fun _ => settles_pushField _ _ _
  | field target owner name type s =>
    rw [Expr.emit]
    exact (settles_inPool (Pool.settles_addMember _ _ _ _)).bind fun _ => target.settles_emit.bind fun _ =>
      (settles_write _).bind fun _ => (settles_pop 1).bind fun _ => settles_pushField _ _ _
  | staticCall owner onInterface name params result args s =>
    rw [Expr.emit]
    exact (settles_checkCall _ _ _ _ _).bind fun _ => (Expr.settles_emitAll args).bind fun _ => settles_invoke .onClass _ _ _ _ _
  | call target owner onInterface name params result args s =>
    rw [Expr.emit, CallKind.opcode_ofTarget]
    exact (settles_checkCall _ _ _ _ _).bind fun _ => target.settles_emit.bind fun _ => (Expr.settles_emitAll args).bind fun _ =>
      settles_invoke (.ofTarget onInterface) _ _ _ _ _

/-- So do expressions in a row. -/
theorem Expr.settles_emitAll (xs : List Expr) : Emit.Settles (Expr.emitAll xs) := by
  cases xs with
  | nil =>
    rw [Expr.emitAll]
    exact Settles.pure Pool.Extends.refl _
  | cons x xs =>
    rw [Expr.emitAll]
    exact x.settles_emit.bind fun _ => Expr.settles_emitAll xs

end

/-- Written again over any extension of the pool it left, an expression leaves that pool as it is, and does not fail. -/
theorem Expr.emit_again (x : Expr) {e t : Emission} (hrun : x.emit e = .ok () t) {u : Emission} (hu : t.pool.Extends u.pool) :
    Ensures x.emit u (fun _ v => v.pool = u.pool) fun _ _ => False := by
  have hagain := ((x.settles_emit e).of_ok hrun).2 u hu
  exact (hagain.and (x.pushes_emit u)).mono (fun _ _ h => h.1.2) fun _ _ h => h.2 h.1.1

end Linkage
