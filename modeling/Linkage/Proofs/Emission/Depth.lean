import Linkage.Proofs.Emission.Receiver

/-!
# The tracked depth

A buffer tracks the entries of the operand stack and, beside them, its depth in slots. Emission moves both together, modulo the width
of the depth: what the depth counts below the tracked entries stays what it is (`Expr.keepsBase_emit`).
-/

namespace Linkage

open Emit

/-- The slots of stack entries, as a buffer counts them. -/
def StackType.depth (stack : List StackType) : UInt16 :=
  stack.foldr (fun t total => t.width + total) 0

/-- The slots of entries above others are added to theirs. -/
theorem StackType.depth_append (upper lower : List StackType) : depth (upper ++ lower) = depth upper + depth lower := by
  induction upper with
  | nil => simp [depth]
  | cons t ts ih =>
    change t.width + depth (ts ++ lower) = t.width + depth ts + depth lower
    rw [ih, UInt16.add_assoc]

namespace CodeBuffer

variable {α β : Type}

/-- The tracked depth, less the slots of the tracked entries. -/
def base (b : CodeBuffer) : UInt16 :=
  b.depth - StackType.depth b.stack

/-- A pushed entry is counted in the depth and in the entries alike. -/
theorem base_push (b : CodeBuffer) (t : StackType) : (b.push t).base = b.base := by
  change b.depth + t.width - (t.width + StackType.depth b.stack) = b.depth - StackType.depth b.stack
  grind

/-- A type without values pushes nothing, any other one entry. -/
theorem base_pushType (b : CodeBuffer) (type : JType) : (b.pushType type).base = b.base := by
  unfold pushType
  split
  · exact base_push _ _
  · rfl

/-- The step moves the tracked depth as it moves the tracked entries. -/
def KeepsBase (step : Step α) : Prop :=
  ∀ b, Ensures step b (fun _ t => t.base = b.base) fun _ _ => True

/-- Depth and entries stay in step along two steps. -/
theorem KeepsBase.bind {x : Step α} {f : α → Step β} (hx : KeepsBase x) (hf : ∀ a, KeepsBase (f a)) : KeepsBase (x >>= f) := by
  intro b
  rw [ensures_bind]
  refine (hx b).mono (fun a c hc => ?_) (fun _ _ h => h)
  exact (hf a c).mono (fun _ _ h => h.trans hc) (fun _ _ h => h)

/-- Popping takes the slots of the top entry off the depth. -/
theorem keepsBase_popOne : KeepsBase popOne := by
  intro b
  unfold Ensures popOne
  cases hstack : b.stack with
  | nil => trivial
  | cons top rest =>
    have hdepth : StackType.depth b.stack = top.width + StackType.depth rest := by
      rw [hstack]
      rfl
    change b.depth - top.width - StackType.depth rest = b.depth - StackType.depth b.stack
    grind

/-- Popping entries one by one keeps depth and entries in step. -/
theorem keepsBase_pop (count : Nat) : KeepsBase (pop count) := by
  induction count with
  | zero => exact fun _ => rfl
  | succ count ih => exact keepsBase_popOne.bind fun _ => ih

/-- A load pushes one entry in the end. -/
theorem keepsBase_load (type : JType) (slot : Nat) : KeepsBase (load type slot) := by
  intro b
  refine (ensures_load type slot b).mono ?_ (fun _ _ _ => trivial)
  rintro _ _ ⟨k, entry, c, -, -, -, hc, rfl⟩
  rw [base_push, base, base, hc.stack, hc.depth]

/-- A call pops its operands and pushes its result, whatever instruction calls. -/
theorem keepsBase_invoke (opcode : UInt8) (index : UInt16) (params : List JType) (result : JType) :
    KeepsBase (invoke opcode index params result) := by
  have hopcode : KeepsBase (modify (·.emitOp2 opcode index)) := fun _ => rfl
  have hcount : KeepsBase (modify fun b => (b.emitByte (slots params + 1).toUInt8).emitByte 0) := fun _ => rfl
  have hrest : KeepsBase (do
      pop (params.length + if opcode = Opcode.invokestatic then 0 else 1)
      modify (·.pushType result)) :=
    (keepsBase_pop _).bind fun _ b => base_pushType b result
  unfold invoke
  refine hopcode.bind fun _ => ?_
  by_cases h : opcode = Opcode.invokeinterface
  · rw [if_pos h]
    exact hcount.bind fun _ => hrest
  · rw [if_neg h]
    exact hrest

end CodeBuffer

namespace Emit

variable {α β : Type}

/-- The step moves the tracked depth as it moves the tracked entries. -/
def KeepsBase (step : Emit α) : Prop :=
  ∀ e, Ensures step e (fun _ t => t.code.base = e.code.base) fun _ _ => True

/-- Depth and entries stay in step along two steps of emission. -/
theorem KeepsBase.bind {x : Emit α} {f : α → Emit β} (hx : KeepsBase x) (hf : ∀ a, KeepsBase (f a)) : KeepsBase (x >>= f) := by
  intro e
  rw [ensures_bind]
  refine (hx e).mono (fun a t ht => ?_) (fun _ _ h => h)
  exact (hf a t).mono (fun _ _ h => h.trans ht) (fun _ _ h => h)

/-- A step on the buffer keeps in step what it keeps in step there. -/
theorem keepsBase_inCode {step : CodeBuffer.Step α} (h : CodeBuffer.KeepsBase step) : KeepsBase (inCode step) := by
  intro e
  rw [inCode, ensures_focus]
  exact (h e.code).mono (fun _ _ h => h) (fun _ _ h => h)

/-- So does a change to the buffer that cannot fail. -/
theorem keepsBase_write {f : CodeBuffer → CodeBuffer} (h : ∀ b, (f b).base = b.base) : KeepsBase (write f) :=
  keepsBase_inCode fun b => h b

/-- An instruction and its operand touch neither the depth nor the entries. -/
theorem keepsBase_emitOp2 (opcode : UInt8) (index : UInt16) : KeepsBase (write (·.emitOp2 opcode index)) :=
  keepsBase_write fun _ => rfl

/-- The pool has no part in it. -/
theorem keepsBase_inPool (step : Pool.Step α) : KeepsBase (inPool step) :=
  fun e => (ensures_inPool step e).mono (fun _ _ h => by rw [h]) fun _ _ _ => trivial

/-- A field pushes one entry, or fails. -/
theorem keepsBase_pushField (owner name : String) (type : JType) : KeepsBase (pushField owner name type) := by
  unfold pushField
  split
  · exact keepsBase_write fun b => b.base_push _
  · exact fun _ => trivial

/-- The check of a call touches nothing. -/
theorem keepsBase_checkCall (owner name : String) (params : List JType) (result : JType) (args : List Expr) :
    KeepsBase (checkCall owner name params result args) :=
  fun e => (ensures_checkCall owner name params result args e).mono (fun _ _ h => by rw [h.1]) fun _ _ _ => trivial

/-- Emission of a call keeps depth and entries in step. -/
theorem keepsBase_invoke (opcode : UInt8) (kind : MemberKind) (owner name : String) (params : List JType) (result : JType) :
    KeepsBase (invoke opcode kind owner name params result) :=
  (keepsBase_inPool _).bind fun _ => keepsBase_inCode (CodeBuffer.keepsBase_invoke _ _ _ _)

end Emit

/-- A literal pushes one entry, whichever instruction is chosen for it. -/
theorem Literal.keepsBase_emit (l : Literal) : KeepsBase l.emit := by
  have hconstant : ∀ (i : UInt16) (t : StackType), KeepsBase (write fun b => b.loadConstant i t) := by
    intro i t
    refine keepsBase_write fun b => ?_
    obtain ⟨c, hc, hpush⟩ := b.loadConstant_eq_push i t
    rw [hpush, CodeBuffer.base_push, CodeBuffer.base, CodeBuffer.base, hc.stack, hc.depth]
  cases l with
  | integer v =>
    unfold Literal.emit
    dsimp only
    split
    · exact keepsBase_write fun _ => CodeBuffer.base_push _ _
    · split
      · exact keepsBase_write fun _ => CodeBuffer.base_push _ _
      · split
        · exact keepsBase_write fun _ => CodeBuffer.base_push _ _
        · exact (keepsBase_inPool _).bind fun i => hconstant i _
  | text s => exact (keepsBase_inPool _).bind fun i => hconstant i _
  | null => exact keepsBase_write fun _ => CodeBuffer.base_push _ _

mutual

/-- Emission of an expression keeps depth and entries in step. -/
theorem Expr.keepsBase_emit (x : Expr) : KeepsBase x.emit := by
  cases x with
  | this type s =>
    rw [Expr.emit]
    exact keepsBase_inCode (CodeBuffer.keepsBase_load type 0)
  | localVar name slot type s =>
    rw [Expr.emit]
    exact keepsBase_inCode (CodeBuffer.keepsBase_load type slot)
  | literal value s =>
    rw [Expr.emit]
    exact value.keepsBase_emit
  | staticField owner name type s =>
    rw [Expr.emit]
    exact (keepsBase_inPool _).bind fun _ => (keepsBase_emitOp2 _ _).bind fun _ => keepsBase_pushField _ _ _
  | field target owner name type s =>
    rw [Expr.emit]
    exact (keepsBase_inPool _).bind fun _ => target.keepsBase_emit.bind fun _ => (keepsBase_emitOp2 _ _).bind fun _ =>
      (keepsBase_inCode (CodeBuffer.keepsBase_pop 1)).bind fun _ => keepsBase_pushField _ _ _
  | staticCall owner onInterface name params result args s =>
    rw [Expr.emit]
    exact (keepsBase_checkCall _ _ _ _ _).bind fun _ => (Expr.keepsBase_emitAll args).bind fun _ => keepsBase_invoke _ _ _ _ _ _
  | call target owner onInterface name params result args s =>
    rw [Expr.emit]
    exact (keepsBase_checkCall _ _ _ _ _).bind fun _ => target.keepsBase_emit.bind fun _ => (Expr.keepsBase_emitAll args).bind fun _ =>
      keepsBase_invoke _ _ _ _ _ _

/-- Emission of expressions in a row keeps depth and entries in step. -/
theorem Expr.keepsBase_emitAll (xs : List Expr) : KeepsBase (Expr.emitAll xs) := by
  cases xs with
  | nil =>
    rw [Expr.emitAll]
    exact fun _ => rfl
  | cons x xs =>
    rw [Expr.emitAll]
    exact x.keepsBase_emit.bind fun _ => Expr.keepsBase_emitAll xs

end

end Linkage
