import Linkage.ClassFile.CodeBuffer
import Linkage.Proofs.Step

/-!
# Code buffers, step by step

What the steps on a buffer do to its bytes and to the operand stack that it tracks. Popping fails on an empty stack only, and keeps
the depth in slots in step with the entries (`Balanced`).
-/

namespace Linkage

namespace StackType

/-- The slots that stack entries take together. -/
def slots (stack : List StackType) : Nat :=
  stack.foldr (fun t total => t.width.toNat + total) 0

theorem slots_append (front rest : List StackType) : slots (front ++ rest) = slots front + slots rest := by
  induction front with
  | nil => exact (Nat.zero_add _).symm
  | cons top front ih =>
    simp only [slots, List.cons_append, List.foldr_cons, Nat.add_assoc] at ih ⊢
    rw [ih]

/-- What is left of a stack takes no more slots. -/
theorem slots_le_of_suffix {rest stack : List StackType} (h : rest <:+ stack) : slots rest ≤ slots stack := by
  obtain ⟨front, rfl⟩ := h
  rw [slots_append]
  exact Nat.le_add_left _ _

end StackType

theorem toNat_max16 (v w : UInt16) : (max v w).toNat = max v.toNat w.toNat := by
  change (if v ≤ w then w else v).toNat = max v.toNat w.toNat
  by_cases h : v ≤ w
  · rw [if_pos h]
    exact (Nat.max_eq_right (UInt16.le_iff_toNat_le.mp h)).symm
  · rw [if_neg h]
    have hlt : w.toNat < v.toNat := UInt16.lt_iff_toNat_lt.mp (UInt16.not_le.mp h)
    exact (Nat.max_eq_left (Nat.le_of_lt hlt)).symm

namespace CodeBuffer

variable {b : CodeBuffer}

/-- The tracked depth is that of the tracked entries. -/
def Balanced (b : CodeBuffer) : Prop :=
  b.depth.toNat = StackType.slots b.stack

/-- Taking the top entry off keeps the depth in step with the entries, as it is no less than the slots of that entry. -/
theorem Balanced.tail {top : StackType} {rest : List StackType} (hb : b.Balanced) (hstack : b.stack = top :: rest) :
    Balanced { b with stack := rest, depth := b.depth - top.width } := by
  have hwidth : top.width.toNat ≤ b.depth.toNat := by
    rw [hb, hstack]
    exact Nat.le_add_right _ _
  unfold Balanced at hb ⊢
  rw [hstack] at hb
  simp only [UInt16.toNat_sub_of_le _ _ (UInt16.le_iff_toNat_le.mpr hwidth), hb, StackType.slots, List.foldr_cons]
  omega

/-- The buffer `t` is `b` with `n` entries taken off the tracked stack, or all if there are fewer. The stack goes on being in step with its
depth. -/
structure Dropped (n : Nat) (b t : CodeBuffer) : Prop where
  eq : t = { b with stack := b.stack.drop n, depth := t.depth }
  balanced : b.Balanced → t.Balanced

/-- The buffer `t` is `b` with `n` entries taken off the tracked stack, which goes on being in step with its depth. -/
structure Popped (n : Nat) (b t : CodeBuffer) : Prop where
  eq : t = { b with stack := b.stack.drop n, depth := t.depth }
  le : n ≤ b.stack.length
  balanced : b.Balanced → t.Balanced

/-- Nothing is popped from a buffer that stays what it is. -/
theorem Popped.zero (b : CodeBuffer) : Popped 0 b b :=
  ⟨rfl, Nat.zero_le _, id⟩

/-- Popping finds enough entries, or it fails for there being too few. However it ends, it has taken the entries on top that there were, and
nothing else. -/
theorem dropped_pop (n : Nat) (b : CodeBuffer) :
    Ensures (pop n) b (fun _ t => n ≤ b.stack.length ∧ Dropped n b t)
      (fun fault t => (fault = .stackUnderflow ∧ b.stack.length < n) ∧ Dropped n b t) := by
  induction n generalizing b with
  | zero =>
    rw [pop, ensures_pure]
    exact ⟨Nat.zero_le _, rfl, id⟩
  | succ n ih =>
    rw [pop, ensures_bind]
    cases hstack : b.stack with
    | nil =>
      have hpop : popOne b = .error .stackUnderflow b := by simp [popOne, hstack]
      unfold Ensures
      rw [hpop]
      refine ⟨⟨rfl, Nat.succ_pos n⟩, ?_, id⟩
      rw [hstack, List.drop_nil, ← hstack]
    | cons top rest =>
      have hpop : popOne b = .ok () { b with stack := rest, depth := b.depth - top.width } := by simp [popOne, hstack]
      have hdropped : ∀ t, Dropped n { b with stack := rest, depth := b.depth - top.width } t → Dropped (n + 1) b t := by
        intro t ht
        refine ⟨?_, fun hb => ht.balanced (hb.tail hstack)⟩
        rw [ht.eq, hstack, List.drop_succ_cons]
      unfold Ensures
      rw [hpop]
      refine (ih _).mono ?_ ?_
      · intro _ t hview
        exact ⟨Nat.succ_le_succ hview.1, hdropped t hview.2⟩
      · intro fault t hview
        exact ⟨⟨hview.1.1, Nat.succ_lt_succ hview.1.2⟩, hdropped t hview.2⟩

/-- Popping takes the entries on top and nothing else, or finds too few of them. -/
theorem ensures_pop (n : Nat) (b : CodeBuffer) :
    Ensures (pop n) b (fun _ t => Popped n b t)
      (fun fault t => fault = .stackUnderflow ∧ t.bytes = b.bytes ∧ b.stack.length < n) := by
  refine (dropped_pop n b).mono ?_ ?_
  · intro _ t hview
    obtain ⟨hle, hdropped⟩ := hview
    exact ⟨hdropped.eq, hle, hdropped.balanced⟩
  · intro fault t hview
    obtain ⟨⟨hfault, hfew⟩, hdropped⟩ := hview
    exact ⟨hfault, by rw [hdropped.eq], hfew⟩

/-- A return writes its instruction and takes what is returned. -/
theorem ensures_emitReturn (type : JType) (b : CodeBuffer) :
    Ensures (emitReturn type) b (fun _ t => Popped (if type = .void then 0 else 1) (b.emitOp (Opcode.returnOf type)) t)
      (fun _ _ => b.stack.length < if type = .void then 0 else 1) := by
  unfold emitReturn
  rw [ensures_bind, ensures_modify]
  exact (ensures_pop _ _).mono (fun _ _ ht => ht) (fun _ _ h => h.2.2)

/-- Local slots are made sure of when they can be counted. -/
theorem ensures_ensureLocals (slots : Nat) (b : CodeBuffer) :
    Ensures (ensureLocals slots) b (fun _ t => slots < 65536 ∧ t = { b with maxLocals := max b.maxLocals slots.toUInt16 })
      (fun fault _ => 65536 ≤ slots ∧ fault = .tooManyLocals slots) := by
  unfold ensureLocals
  split
  · rename_i hslots
    rw [ensures_modify]
    exact ⟨hslots, rfl⟩
  · rename_i hslots
    rw [ensures_throw]
    exact ⟨Nat.le_of_not_lt hslots, rfl⟩

end CodeBuffer

/-- Whatever is returned, the instruction is a return. -/
theorem Opcode.returnOf_mem_returns (type : JType) : returnOf type ∈ returns := by
  cases type with
  | prim p => cases p <;> decide
  | named k n => simp [returnOf, returns]
  | array c => simp [returnOf, returns]
  | void => simp [returnOf, returns]

end Linkage
