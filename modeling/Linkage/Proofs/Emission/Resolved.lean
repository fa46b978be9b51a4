import Linkage.Emission.Receiver
import Linkage.Proofs.ClassTable.Resolved
import Linkage.Proofs.Emission.Kinds

/-!
# Receivers of resolved types

The static type of a receiver shows in its code where a field or a call names it in the pool. Elsewhere it decides only what is known of the
value on the stack, and the value is popped by the call site (`together_emit_resolved`, `together_invokeDynamic`).
-/

namespace Linkage

open Emit

namespace Expr

/-- The expression with its static type resolved. The type of a literal is fixed. -/
def resolved (t : ClassTable) : Expr → Expr
  | .this type span => .this (t.canonicalType type) span
  | .localVar name slot type span => .localVar name slot (t.canonicalType type) span
  | .literal value span => .literal value span
  | .staticField owner name type span => .staticField owner name (t.canonicalType type) span
  | .field target owner name type span => .field target owner name (t.canonicalType type) span
  | .staticCall owner onInterface name params result args span =>
    .staticCall owner onInterface name params (t.canonicalType result) args span
  | .call target owner onInterface name params result args span =>
    .call target owner onInterface name params (t.canonicalType result) args span

/-- Whether the pool holds the static type: as the type of a field or the result of a call. -/
def namesType : Expr → Bool
  | .this _ _ => false
  | .localVar _ _ _ _ => false
  | .literal _ _ => false
  | _ => true

end Expr

/-! ## Types that are the same but for kinds -/

section Equiv

variable {a b : JType}

theorem Emit.pushField_congr (h : a ≈ b) (owner name : String) : pushField owner name a = pushField owner name b := by
  rw [← pushField_untag, JType.equiv_def.mp h, pushField_untag]

/-- The check of a call does not look at the kind of its result. -/
theorem Emit.checkCall_congr (h : a ≈ b) (owner name : String) (params : List JType) (args : List Expr) :
    checkCall owner name params a args = checkCall owner name params b args := by
  have hvoid : a = .void ↔ b = .void := by rw [← a.untag_eq_void, JType.equiv_def.mp h, b.untag_eq_void]
  unfold checkCall
  simp only [hvoid]

/-- The instruction of a call does not depend on the kind of its result. -/
theorem Emit.invoke_congr (h : a ≈ b) (opcode : UInt8) (kind : MemberKind) (owner name : String) (params : List JType) :
    invoke opcode kind owner name params a = invoke opcode kind owner name params b := by
  rw [← invoke_untag opcode kind owner name params a, JType.equiv_def.mp h, invoke_untag]

end Equiv

/-- Fields and calls are written alike under types that are the same but for kinds. -/
theorem Expr.emit_resolved (t : ClassTable) {e : Expr} (hnames : e.namesType = true) (htype : t.canonicalType e.type ≈ e.type) :
    (e.resolved t).emit = e.emit := by
  cases e with
  | this type span => cases hnames
  | localVar name slot type span => cases hnames
  | literal value span => cases hnames
  | staticField owner name type span =>
    have htype : t.canonicalType type ≈ type := htype
    simp only [resolved, emit, JType.descriptor_congr htype, pushField_congr htype]
  | field target owner name type span =>
    have htype : t.canonicalType type ≈ type := htype
    simp only [resolved, emit, JType.descriptor_congr htype, pushField_congr htype]
  | staticCall owner onInterface name params result args span =>
    have htype : t.canonicalType result ≈ result := htype
    simp only [resolved, emit, checkCall_congr htype, invoke_congr htype]
  | call target owner onInterface name params result args span =>
    have htype : t.canonicalType result ≈ result := htype
    simp only [resolved, emit, checkCall_congr htype, invoke_congr htype]

/-! ## The value on top of the stack -/

namespace CodeBuffer

/-- The buffers are the same but for what is known of the value on top of the stack. -/
def SameBelow (b c : CodeBuffer) : Prop :=
  b = c ∨ ∃ (base : CodeBuffer) (top top' : StackType), b = base.push top ∧ c = base.push top' ∧ top.width = top'.width

theorem SameBelow.refl (b : CodeBuffer) : b.SameBelow b :=
  .inl rfl

/-- A local is loaded alike under a type and what the type stands for. -/
theorem together_load_canonicalType (t : ClassTable) (type : JType) (slot : Nat) (b : CodeBuffer) :
    Together (load type slot) b (load (t.canonicalType type) slot) b fun _ c _ d => c.SameBelow d := by
  have hsame : ∀ x : Step Unit, Together x b x b fun _ c _ d => c.SameBelow d := by
    intro x
    refine (Together.refl x b).mono ?_
    rintro _ c _ _ ⟨-, rfl⟩
    exact .refl c
  -- The instruction is the same for all references; they differ in the entry that is pushed behind it.
  have hreference : ∀ {u v : JType} {n m : String}, StackType.ofType? u = some (.object n) → StackType.ofType? v = some (.object m) →
      ∀ x : Step Unit, Together (x >>= fun _ => modify (·.pushType u)) b (x >>= fun _ => modify (·.pushType v)) b
        fun _ c _ d => c.SameBelow d := by
    intro u v n m hu hv x
    refine Together.bind (Together.refl x b) ?_
    rintro _ base _ _ ⟨-, rfl⟩
    refine .some (.inr ⟨base, .object n, .object m, ?_, ?_, rfl⟩)
    · simp only [pushType, hu]
    · simp only [pushType, hv]
  cases type with
  | prim p => exact hsame _
  | void => exact hsame _
  | named k n =>
    obtain ⟨k', hk'⟩ := t.exists_canonicalType_named k n
    rw [hk']
    exact hreference rfl rfl _
  | array c => exact hreference rfl rfl _

/-- Of the value that a call site captures only the width shows behind its instruction. -/
theorem completed_invokeDynamic_push (base : CodeBuffer) (top : StackType) (index : UInt16) (result : StackType) :
    completed (invokeDynamic index 1 result) (base.push top) =
      let raised : CodeBuffer :=
        { base with depth := base.depth + top.width, maxDepth := max base.maxDepth (base.depth + top.width) }
      let called : CodeBuffer :=
        { (raised.emitOp2 Opcode.invokedynamic index).emitWord 0 with depth := base.depth + top.width - top.width }
      some ((), called.push result) :=
  rfl

/-- The instruction of a call site pops the value that it captures, whatever is known of it. -/
theorem together_invokeDynamic {b c : CodeBuffer} (h : b.SameBelow c) (index : UInt16) (result : StackType) :
    Together (invokeDynamic index 1 result) b (invokeDynamic index 1 result) c fun _ b' _ c' => b' = c' := by
  rcases h with rfl | ⟨base, top, top', rfl, rfl, hwidth⟩
  · exact (Together.refl _ b).mono fun _ _ _ _ h => h.2
  · unfold Together
    rw [completed_invokeDynamic_push, completed_invokeDynamic_push, hwidth]
    exact .some rfl

end CodeBuffer

/-- The code of a receiver is the same when its static type is resolved, unless it names that type and the type names an alias. What is
known of its value may differ. -/
theorem Expr.together_emit_resolved (t : ClassTable) {e : Expr} (htype : e.namesType = true → t.canonicalType e.type ≈ e.type)
    (s : Emission) :
    Together e.emit s (e.resolved t).emit s fun _ u _ v => u.pool = v.pool ∧ u.code.SameBelow v.code := by
  have hload : ∀ type slot, Together (inCode (CodeBuffer.load type slot)) s (inCode (CodeBuffer.load (t.canonicalType type) slot)) s
      fun _ u _ v => u.pool = v.pool ∧ u.code.SameBelow v.code :=
    fun type slot => Together.focus (CodeBuffer.together_load_canonicalType t type slot s.code) fun _ _ _ _ h => ⟨rfl, h⟩
  have hsame : (e.resolved t).emit = e.emit →
      Together e.emit s (e.resolved t).emit s fun _ u _ v => u.pool = v.pool ∧ u.code.SameBelow v.code := by
    intro hemit
    rw [hemit]
    refine (Together.refl e.emit s).mono ?_
    rintro _ u _ _ ⟨-, rfl⟩
    exact ⟨rfl, .refl _⟩
  cases hnames : e.namesType with
  | true => exact hsame (e.emit_resolved t hnames (htype hnames))
  | false =>
    cases e with
    | this type span =>
      simp only [resolved, emit]
      exact hload type 0
    | localVar name slot type span =>
      simp only [resolved, emit]
      exact hload type slot
    | literal value span => exact hsame rfl
    | _ => cases hnames

end Linkage
