import Linkage.Proofs.Emission.Growth
import Linkage.Proofs.Machine.Typed

/-!
# The tracked stack and the machine

While code is written, the buffer tracks the slots of the operand stack. `CodeBuffer.Tracks` ties them to a frame of the machine over
types, and `Emission.Carries` says of the code between two emissions that it takes the machine from one frame to another, the buffer
tracking both.
-/

namespace Linkage

/-- The buffer tracks the stack of the frame: entry by entry the same widths, and the same largest depth. -/
structure CodeBuffer.Tracks (b : CodeBuffer) (f : Frame) : Prop where
  widths : b.stack.map (·.width.toNat) = f.stack.map Operand.width
  balanced : b.Balanced
  peak : b.maxDepth.toNat = f.peak

/-- The width of an entry is that of the type it stands for. -/
theorem StackType.width_ofType? {type : JType} {entry : StackType} (h : StackType.ofType? type = some entry) :
    entry.width.toNat = type.width := by
  cases type with
  | prim p => cases p <;> cases h <;> rfl
  | named k n =>
    cases h
    rfl
  | array c =>
    cases h
    rfl
  | void => cases h

/-- Stacks with the same widths take the same slots. -/
theorem StackType.slots_eq {stack : List StackType} {operands : List Operand}
    (h : stack.map (·.width.toNat) = operands.map Operand.width) : slots stack = Operand.slots operands := by
  induction stack generalizing operands with
  | nil =>
    cases operands with
    | nil => rfl
    | cons o os => cases h
  | cons t ts ih =>
    cases operands with
    | nil => cases h
    | cons o os =>
      obtain ⟨hhead, htail⟩ := List.cons.inj h
      rw [Operand.slots_cons, ← hhead, ← ih htail]
      rfl

namespace CodeBuffer

variable {b c d : CodeBuffer} {f g : Frame}

namespace Tracks

/-- An empty buffer tracks a machine that has not started. -/
theorem create (maxLocals : UInt16) (tracing : Bool) : (create maxLocals tracing).Tracks {} :=
  ⟨rfl, rfl, rfl⟩

/-- Only the widths on the stack and its largest depth are tracked. -/
theorem congr (h : b.Tracks f) (hstack : g.stack.map Operand.width = f.stack.map Operand.width) (hpeak : g.peak = f.peak) :
    b.Tracks g :=
  ⟨by rw [hstack]; exact h.widths, h.balanced, by rw [hpeak]; exact h.peak⟩

/-- The depth of the buffer is the number of slots on the stack of the machine. -/
theorem depth_eq (h : b.Tracks f) : b.depth.toNat = Operand.slots f.stack := by
  rw [h.balanced, StackType.slots_eq h.widths]

/-- What only writes bytes goes on tracking the machine. -/
theorem writes {is : List Instruction} (h : b.Tracks f) (hc : b.Writes c is) : c.Tracks f :=
  ⟨by rw [hc.stack]; exact h.widths, hc.balanced h.balanced, by rw [hc.maxDepth]; exact h.peak⟩

/-- Popping takes the same values off both stacks. -/
theorem popped {n : Nat} (h : b.Tracks f) (hd : Popped n b d) : d.Tracks { f with stack := f.stack.drop n } := by
  refine ⟨?_, hd.balanced h.balanced, ?_⟩
  · rw [hd.eq]
    simp only [List.map_drop, h.widths]
  · rw [hd.eq]
    exact h.peak

/-- Pushing keeps the two stacks in step as long as the depth stays within 16 bits. -/
theorem push {entry : StackType} {o : Operand} (h : b.Tracks f) (hwidth : entry.width.toNat = o.width)
    (hroom : Operand.slots (o :: f.stack) < 65536) : (b.push entry).Tracks (f.push o) := by
  have hdepth : (b.depth + entry.width).toNat = Operand.slots (o :: f.stack) := by
    rw [UInt16.toNat_add, h.depth_eq, hwidth, Nat.add_comm, ← Operand.slots_cons]
    exact Nat.mod_eq_of_lt hroom
  have hwidths : (b.push entry).stack.map (·.width.toNat) = (f.push o).stack.map Operand.width := by
    simp [CodeBuffer.push, Frame.push, hwidth, h.widths]
  refine ⟨hwidths, ?_, ?_⟩
  · rw [Balanced, StackType.slots_eq hwidths]
    exact hdepth
  · have hmax : (b.push entry).maxDepth = max b.maxDepth (b.depth + entry.width) := rfl
    have hpeak : (f.push o).peak = max f.peak (Operand.slots (o :: f.stack)) := rfl
    rw [hmax, hpeak, ← hdepth, ← h.peak, toNat_max16]

end Tracks

end CodeBuffer

/-- The code written between the emissions `s` and `t` takes the machine from the frame `f` to the frame `g`, read with the pool of `t`
or any that extends it, and the buffer tracks the machine there. -/
structure Emission.Carries (classes : ClassTable) (locals : List (Option (Nat × JType))) (s : Emission) (f : Frame) (t : Emission)
    (g : Frame) : Prop where
  pool : s.pool.Extends t.pool
  code : ∃ is, s.code.Appends t.code is ∧ ∀ p, t.pool.Extends p → Frame.execAll? classes locals p is f = some g
  tracks : t.code.Tracks g
  maxLocals : t.code.maxLocals = s.code.maxLocals

namespace Emission

variable {classes : ClassTable} {locals : List (Option (Nat × JType))} {s t u : Emission} {f g h : Frame}

theorem Carries.refl (hs : s.code.Tracks f) : Carries classes locals s f s f :=
  ⟨.refl _, ⟨[], .refl _, fun _ _ => rfl⟩, hs, rfl⟩

theorem Carries.trans (hst : Carries classes locals s f t g) (htu : Carries classes locals t g u h) :
    Carries classes locals s f u h := by
  obtain ⟨is, his, hrun⟩ := hst.code
  obtain ⟨js, hjs, hrun'⟩ := htu.code
  refine ⟨hst.pool.trans htu.pool, ⟨is ++ js, his.trans hjs, fun p hp => ?_⟩, htu.tracks, htu.maxLocals.trans hst.maxLocals⟩
  rw [Frame.execAll?_append, hrun p (htu.pool.trans hp), Option.bind_some, hrun' p hp]

/-- The code of one instruction, from the step that the machine takes for it. -/
theorem carries_single {i : Instruction} (hpool : s.pool.Extends t.pool) (hcode : s.code.Appends t.code [i])
    (hstep : ∀ p, t.pool.Extends p → f.exec? classes locals p i = some g) (htracks : t.code.Tracks g)
    (hlocals : t.code.maxLocals = s.code.maxLocals) : Carries classes locals s f t g := by
  refine ⟨hpool, ⟨[i], hcode, fun p hp => ?_⟩, htracks, hlocals⟩
  rw [Frame.execAll?, hstep p hp]
  rfl

/-- The code of one instruction that takes `n` values and pushes one. -/
theorem carries_push {i : Instruction} {n : Nat} {c d : CodeBuffer} {entry : StackType} {o : Operand}
    (hpool : s.pool.Extends t.pool) (hc : s.code.Writes c [i]) (hd : CodeBuffer.Popped n c d) (ht : t.code = d.push entry)
    (hs : s.code.Tracks f) (hstack : g.stack = f.stack.drop n) (hpeak : g.peak = f.peak) (hwidth : entry.width.toNat = o.width)
    (hroom : Operand.slots (o :: g.stack) < 65536)
    (hstep : ∀ p, t.pool.Extends p → f.exec? classes locals p i = some (g.push o)) : Carries classes locals s f t (g.push o) := by
  have hbytes : t.code.bytes = c.bytes := by
    rw [ht, CodeBuffer.bytes_push, hd.eq]
  have htracks : d.Tracks g := ((hs.writes hc).popped hd).congr (by rw [hstack]) hpeak
  refine carries_single hpool (hc.appends.of_bytes hbytes) hstep ?_ ?_
  · rw [ht]
    exact htracks.push hwidth hroom
  · rw [ht]
    change d.maxLocals = _
    rw [hd.eq]
    exact hc.maxLocals

end Emission

open Emit Emission

namespace Emit

variable {handles : UInt8 → MemberKind → Prop} {bootstraps : Nat} {classes : ClassTable} {locals : List (Option (Nat × JType))}
  {s : Emission} {f : Frame}

/-- A load takes its parameter to the top of the stack. -/
theorem carries_load {type : JType} {slot number : Nat} (hs : s.code.Tracks f)
    (hlocal : type.width ≠ 0 → locals[slot]? = some (some (number, type)))
    (hroom : slot ≤ 255 → Operand.slots f.stack + 2 < 65536) :
    Adds handles bootstraps (inCode (CodeBuffer.load type slot)) s fun _ t => slot ≤ 255 ∧ type.width ≠ 0 ∧
      Carries classes locals s f t ({ f with loads := f.loads ++ [number] }.push (.value type [number])) := by
  refine (adds_inCode (CodeBuffer.ensures_load type slot s.code)).mono ?_
  intro _ t _ hview
  obtain ⟨hpool, kind, entry, c, hkind, hentry, hslot, hc, ht⟩ := hview
  have hwidth := StackType.width_ofType? hentry
  have hpositive : type.width ≠ 0 := by
    rw [← hwidth]
    cases entry <;> simp [StackType.width]
  refine ⟨hslot, hpositive, carries_push ?_ hc (.zero c) ht hs rfl rfl hwidth ?_ ?_⟩
  · rw [hpool]
    exact .refl _
  · exact Nat.lt_of_le_of_lt (Operand.slots_value_le type [number] f.stack) (hroom hslot)
  · intro p _
    simp [Frame.exec?, hlocal hpositive, hkind]

end Emit

end Linkage
