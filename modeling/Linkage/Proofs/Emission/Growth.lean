import Linkage.Lowering.Factory
import Linkage.Proofs.Machine.Writing
import Linkage.Proofs.Pool.Growth

/-!
# Emission lets the pool grow

Whatever code is written, and whether it is written to its end or not, the pool beside it only grows. Emitted code names texts,
numbers, classes and members, so the growth holds for any rule on handles and dynamic call sites.
-/

namespace Linkage

open Emit

variable {handles : UInt8 → MemberKind → Prop} {bootstraps : Nat} {α β : Type}

/-- Run from `e` the step lets the pool grow, also when it fails, and its answer stands for what `view` says of the emission behind
it. -/
abbrev Emit.Adds (handles : UInt8 → MemberKind → Prop) (bootstraps : Nat) (step : Emit α) (e : Emission)
    (view : α → Emission → Prop) : Prop :=
  Moves (fun e t : Emission => e.pool.Grows handles bootstraps t.pool) step e view

/-- However the step ends, the pool behind it has grown out of the pool before it. -/
def Emit.GrowsPool (handles : UInt8 → MemberKind → Prop) (bootstraps : Nat) (step : Emit α) : Prop :=
  ∀ e, e.pool.Fits → Adds handles bootstraps step e fun _ _ => True

namespace Emit

section Adds

variable {e : Emission}

/-- The pool grows along two steps, and the second one starts with what the first one added. -/
theorem Adds.bind {x : Emit α} {k : α → Emit β} {φ : α → Emission → Prop} {ψ : β → Emission → Prop}
    (hx : Adds handles bootstraps x e φ)
    (hk : ∀ a t, e.pool.Grows handles bootstraps t.pool → φ a t → Adds handles bootstraps (k a) t ψ) :
    Adds handles bootstraps (x >>= k) e ψ :=
  Moves.bind (R := fun e t : Emission => e.pool.Grows handles bootstraps t.pool) (fun _ _ _ => Pool.Grows.trans) hx hk

/-- Steps on the buffer leave the pool alone. -/
theorem adds_inCode {step : CodeBuffer.Step α} {ok : α → CodeBuffer → Prop} {err : CodeFault → CodeBuffer → Prop}
    (h : Ensures step e.code ok err) : Adds handles bootstraps (inCode step) e fun a t => t.pool = e.pool ∧ ok a t.code := by
  rw [Adds, Moves, inCode, ensures_focus]
  exact h.mono (fun _ _ ha => ⟨.refl, rfl, ha⟩) (fun _ _ _ => .refl)

/-- A change to the buffer leaves the pool alone. -/
theorem adds_write (f : CodeBuffer → CodeBuffer) :
    Adds handles bootstraps (write f) e fun _ t => t.pool = e.pool ∧ t.code = f e.code := by
  have h : Ensures (modify f : CodeBuffer.Step Unit) e.code (fun _ c => c = f e.code) (fun _ _ => True) := rfl
  exact adds_inCode h

/-- Steps on the pool leave the buffer alone. -/
theorem adds_inPool {step : Pool.Step α} {view : α → Pool → Prop} (h : Pool.Adds handles bootstraps step e.pool view) :
    Adds handles bootstraps (inPool step) e fun a t => t.code = e.code ∧ view a t.pool :=
  Moves.focus h (fun _ ht => ht) fun _ _ hv => ⟨rfl, hv⟩

/-- A call is written as one instruction that names the method; its operands are taken and its result is pushed. -/
theorem adds_invoke (call : CallKind) (kind : MemberKind) (owner name : String) (params : List JType) (result : JType)
    (he : e.pool.Fits) :
    Adds handles bootstraps (invoke call.opcode kind owner name params result) e fun _ t =>
      ∃ i c d, e.code.Writes c [.call call i] ∧ CodeBuffer.Popped (params.length + call.targets) c d ∧ t.code = d.pushType result ∧
        t.pool.kindAndMember? i = some (kind, owner, name, methodDescriptor params result) := by
  refine Adds.bind (adds_inPool (Pool.adds_addMember kind owner name (methodDescriptor params result) he)) ?_
  intro i e₁ _ hview
  obtain ⟨hcode, hi⟩ := hview
  refine (adds_inCode (CodeBuffer.ensures_invoke call i params result e₁.code)).mono ?_
  intro _ t _ hview
  obtain ⟨hpool, c, d, hc, hd, ht⟩ := hview
  rw [hcode] at hc
  exact ⟨i, c, d, hc, hd, ht, by rw [hpool]; exact hi⟩

end Adds

/-- Doing nothing lets the pool be. -/
theorem growsPool_pure (a : α) : GrowsPool handles bootstraps (pure a) :=
  fun _ _ => ⟨.refl, trivial⟩

/-- Failing lets the pool be. -/
theorem growsPool_throw (fault : Fault) : GrowsPool handles bootstraps (throw fault : Emit α) :=
  fun _ _ => .refl

/-- The pool grows along two steps. -/
theorem growsPool_bind {x : Emit α} {f : α → Emit β} (hx : GrowsPool handles bootstraps x)
    (hf : ∀ a, GrowsPool handles bootstraps (f a)) : GrowsPool handles bootstraps (x >>= f) :=
  fun e he => Adds.bind (hx e he) fun a t ht _ => hf a t (ht.fits he)

/-- An answer that is there already lets the pool be. -/
theorem growsPool_answer (r : Except Fault α) : GrowsPool handles bootstraps (answer r) :=
  fun _ _ => (Moves.answer .refl r).mono fun _ _ _ _ => trivial

/-- A step on the buffer lets the pool be. -/
theorem growsPool_inCode (step : CodeBuffer.Step α) : GrowsPool handles bootstraps (inCode step) := by
  intro e _
  have h : Ensures step e.code (fun _ _ => True) (fun _ _ => True) := .intro (fun _ _ _ => trivial) (fun _ _ _ => trivial)
  exact (adds_inCode h).mono fun _ _ _ _ => trivial

/-- A change to the buffer lets the pool be. -/
theorem growsPool_write (f : CodeBuffer → CodeBuffer) : GrowsPool handles bootstraps (write f) :=
  growsPool_inCode _

/-- A step on the pool that lets it grow does so in emission. -/
theorem growsPool_inPool {step : Pool.Step α} {view : α → Pool → Prop}
    (h : ∀ p : Pool, p.Fits → Pool.Adds handles bootstraps step p view) : GrowsPool handles bootstraps (inPool step) :=
  fun e he => (adds_inPool (h e.pool he)).mono fun _ _ _ _ => trivial

/-- A call adds its method. -/
theorem growsPool_invoke (opcode : UInt8) (kind : MemberKind) (owner name : String) (params : List JType) (result : JType) :
    GrowsPool handles bootstraps (invoke opcode kind owner name params result) :=
  growsPool_bind (growsPool_inPool fun _ => Pool.adds_addMember kind owner name _) fun _ => growsPool_inCode _

end Emit

/-! ## Factories -/

/-- Widening lets the pool be. -/
theorem Emit.growsPool_widening (p q : Primitive) : GrowsPool handles bootstraps (widening p q) := by
  unfold widening
  split
  · exact growsPool_pure _
  · split
    · exact growsPool_throw _
    · exact growsPool_bind (growsPool_write _) fun _ => growsPool_bind (growsPool_inCode _) fun _ => growsPool_write _

/-- A conversion may add the method that boxes or unboxes. -/
theorem Emit.growsPool_convert (source target : JType) : GrowsPool handles bootstraps (convert source target) := by
  unfold convert
  split
  · exact growsPool_pure _
  · split
    · exact growsPool_widening _ _
    · exact growsPool_invoke _ _ _ _ _ _
    · exact growsPool_invoke _ _ _ _ _ _
    · split
      · exact growsPool_throw _
      · exact growsPool_bind (growsPool_invoke _ _ _ _ _ _) fun _ => growsPool_widening _ _
    · exact growsPool_throw _
    · exact growsPool_pure _

namespace Factory

/-- Pushing sizes may add the methods that unbox them. -/
theorem growsPool_pushSizes (span : Span) (slot : Nat) (ps : List Param) :
    GrowsPool handles bootstraps (pushSizes span slot ps) := by
  induction ps generalizing slot with
  | nil => exact growsPool_pure _
  | cons p ps ih =>
    unfold pushSizes
    have hrest : GrowsPool handles bootstraps (do
        inCode (CodeBuffer.load p.type slot)
        convert p.type .int
        pushSizes span (slot + p.type.width) ps) :=
      growsPool_bind (growsPool_inCode _) fun _ => growsPool_bind (growsPool_convert _ _) fun _ => ih _
    split
    · exact growsPool_bind (growsPool_throw _) fun _ => hrest
    · exact hrest

/-- Allocating an array may add the class of its elements. -/
theorem growsPool_allocate (type : JType) (count : Nat) : GrowsPool handles bootstraps (allocate type count) := by
  unfold allocate
  have hrest : GrowsPool handles bootstraps (do
      inCode (CodeBuffer.pop count)
      write (·.push (.object type.constantName))) :=
    growsPool_bind (growsPool_inCode _) fun _ => growsPool_write _
  split
  · exact growsPool_bind (growsPool_write _) fun _ => hrest
  · exact growsPool_bind (growsPool_inPool fun _ => Pool.adds_addClass _) fun _ => growsPool_bind (growsPool_write _) fun _ => hrest
  · exact growsPool_bind (growsPool_inPool fun _ => Pool.adds_addClass _) fun _ => growsPool_bind (growsPool_write _) fun _ => hrest

/-- Pushing arguments may add the methods that convert them. -/
theorem growsPool_pushArguments (slot : Nat) (args params : List Param) :
    GrowsPool handles bootstraps (pushArguments slot args params) := by
  induction args generalizing slot params with
  | nil => exact growsPool_pure _
  | cons arg args ih =>
    cases params with
    | nil => exact growsPool_pure _
    | cons param params =>
      exact growsPool_bind (growsPool_inCode _) fun _ => growsPool_bind (growsPool_convert _ _) fun _ => ih _ _

/-- Constructing an instance adds its class and its constructor. -/
theorem growsPool_construct (className : String) (constructor : MethodDecl) (exact : List Param) :
    GrowsPool handles bootstraps (construct className constructor exact) := by
  unfold construct
  exact growsPool_bind (growsPool_inPool fun _ => Pool.adds_addClass className) fun _ =>
    growsPool_bind (growsPool_write _) fun _ => growsPool_bind (growsPool_write _) fun _ =>
      growsPool_bind (growsPool_pushArguments 0 exact constructor.params) fun _ =>
        growsPool_bind (growsPool_inPool fun _ => Pool.adds_addMember .method className _ _) fun _ => growsPool_inCode _

/-- Whatever a factory makes, the pool only grows. -/
theorem growsPool_make (s : Scope) (type : JType) (exact : List Param) (span : Span) :
    GrowsPool handles bootstraps (make s type exact span) := by
  unfold make
  split
  · exact growsPool_bind (growsPool_answer _) fun _ => growsPool_bind (growsPool_pushSizes _ _ _) fun _ => growsPool_allocate _ _
  · exact growsPool_bind (growsPool_answer _) fun _ => growsPool_construct _ _ _
  · exact growsPool_throw _
  · exact growsPool_throw _

/-- The body of a factory lets the pool grow. -/
theorem growsPool_body (s : Scope) (type : JType) (exact : List Param) (span : Span) :
    GrowsPool handles bootstraps (body s type exact span) :=
  growsPool_bind (growsPool_inCode _) fun _ => growsPool_bind (growsPool_make s type exact span) fun _ => growsPool_inCode _

end Factory

end Linkage
