import Linkage.Proofs.ClassFile.Buffer
import Linkage.Proofs.TwoRuns

/-!
# Two buffers side by side

One step on two buffers fails on both or on neither as long as both have enough entries to pop. `CodeBuffer.Twins` says how many entries
are known to be there, and for code that is stored as a body of its own also that both buffers have the same number of entries and of
bytes. The operands of the instructions may differ.
-/

namespace Linkage

namespace CodeBuffer

/-- Both buffers have at least `n` entries; when they are sized, they have the same number of entries and of bytes. -/
structure Twins (sized : Bool) (n : Nat) (b c : CodeBuffer) : Prop where
  left : n ≤ b.stack.length
  right : n ≤ c.stack.length
  entries : sized = true → b.stack.length = c.stack.length
  sizes : sized = true → b.bytes.size = c.bytes.size

variable {sized : Bool} {n m : Nat} {b c : CodeBuffer}

namespace Twins

/-- Nothing is asked of buffers that are not sized. -/
theorem unsized (b c : CodeBuffer) : Twins false 0 b c :=
  ⟨Nat.zero_le _, Nat.zero_le _, nofun, nofun⟩

/-- A buffer is its own twin, if no entries are asked for. -/
theorem refl (b : CodeBuffer) : Twins sized 0 b b :=
  ⟨Nat.zero_le _, Nat.zero_le _, fun _ => rfl, fun _ => rfl⟩

/-- Fewer entries are known to be there. -/
theorem weaken (h : Twins sized n b c) (hm : m ≤ n) : Twins sized m b c :=
  ⟨Nat.le_trans hm h.left, Nat.le_trans hm h.right, h.entries, h.sizes⟩

/-- The bytes that are written may differ. -/
theorem emitByte (h : Twins sized n b c) (byte byte' : UInt8) : Twins sized n (b.emitByte byte) (c.emitByte byte') :=
  ⟨h.left, h.right, h.entries, fun hs => by simp [CodeBuffer.emitByte, h.sizes hs]⟩

/-- The operands that are written may differ. -/
theorem emitWord (h : Twins sized n b c) (word word' : UInt16) : Twins sized n (b.emitWord word) (c.emitWord word') :=
  ⟨h.left, h.right, h.entries, fun hs => by simp [CodeBuffer.emitWord, be16, h.sizes hs]⟩

/-- The opcodes that are written may differ. -/
theorem emitOp (h : Twins sized n b c) (opcode opcode' : UInt8) : Twins sized n (b.emitOp opcode) (c.emitOp opcode') :=
  ⟨h.left, h.right, h.entries, fun hs => by simp [CodeBuffer.emitOp, h.sizes hs]⟩

/-- A push on both sides is one more entry that is known to be there. -/
theorem push (h : Twins sized n b c) (entry entry' : StackType) : Twins sized (n + 1) (b.push entry) (c.push entry') :=
  ⟨Nat.succ_le_succ h.left, Nat.succ_le_succ h.right, fun hs => congrArg Nat.succ (h.entries hs), h.sizes⟩

/-- A value of a type is one entry, unless there are none. -/
theorem pushType (h : Twins sized n b c) (type : JType) :
    Twins sized (n + if type = .void then 0 else 1) (b.pushType type) (c.pushType type) := by
  cases type with
  | void => exact h
  | prim p => cases p <;> exact h.push _ _
  | named k name => exact h.push _ _
  | array d => exact h.push _ _

/-- The forms in which a constant is loaded differ in size, so the buffers must not be sized. -/
theorem loadConstant (h : Twins false n b c) (i j : UInt16) (entry : StackType) :
    Twins false (n + 1) (b.loadConstant i entry) (c.loadConstant j entry) := by
  have hop : ∀ (d : CodeBuffer) (k : UInt16), (d.loadConstant k entry).stack = entry :: d.stack := by
    intro d k
    unfold CodeBuffer.loadConstant
    split <;> rfl
  refine ⟨?_, ?_, nofun, nofun⟩
  · rw [hop]
    exact Nat.succ_le_succ h.left
  · rw [hop]
    exact Nat.succ_le_succ h.right

end Twins

/-! ## Steps on twins -/

/-- The two steps end alike on twins with `n` entries, and leave twins with `m`. A fault of a buffer is never excused. -/
abbrev Paired (sized : Bool) (n m : Nat) (x y : Step Unit) : Prop :=
  Parallel (fun _ => False) (Twins sized n) (Twins sized m) x y

/-- Popping ends alike when there are enough entries, or as many on both sides. -/
theorem paired_pop (count : Nat) (h : sized = true ∨ count ≤ n) : Paired sized n (n - count) (pop count) (pop count) := by
  intro b c hbc
  have hb := ensures_pop count b
  have hc := ensures_pop count c
  unfold Alike
  split
  · rename_i hx hy
    have hb := hb.of_ok hx
    have hc := hc.of_ok hy
    have hleft := hbc.left
    have hright := hbc.right
    rw [hb.eq, hc.eq]
    refine ⟨?_, ?_, fun hs => ?_, hbc.sizes⟩
    · simpa using Nat.sub_le_sub_right hleft count
    · simpa using Nat.sub_le_sub_right hright count
    · simp [hbc.entries hs]
  · rename_i hx hy
    exact .inl ((hb.of_error hx).1.trans (hc.of_error hy).1.symm)
  · rename_i hx hy
    have hlt := (hb.of_error hx).2.2
    have hle := (hc.of_ok hy).le
    rcases h with hs | hn
    · rw [hbc.entries hs] at hlt
      exact absurd hle (Nat.not_le_of_lt hlt)
    · exact absurd (Nat.le_trans hn hbc.left) (Nat.not_le_of_lt hlt)
  · rename_i hx hy
    have hle := (hb.of_ok hx).le
    have hlt := (hc.of_error hy).2.2
    rcases h with hs | hn
    · rw [hbc.entries hs] at hle
      exact absurd hle (Nat.not_le_of_lt hlt)
    · exact absurd (Nat.le_trans hn hbc.right) (Nat.not_le_of_lt hlt)

/-- Slots are reserved on both sides or on neither. -/
theorem paired_ensureLocals (slots : Nat) : Paired sized n n (ensureLocals slots) (ensureLocals slots) := by
  unfold ensureLocals
  split
  · exact .modify fun _ _ h => ⟨h.left, h.right, h.entries, h.sizes⟩
  · exact .throw _ _ _ _

/-- A load of a slot is written on both sides or on neither. -/
theorem paired_loadSlot (opcode opcode0 : UInt8) (slot : Nat) :
    Paired sized n n (loadSlot opcode opcode0 slot) (loadSlot opcode opcode0 slot) := by
  unfold loadSlot
  split
  · exact .modify fun _ _ h => h.emitOp _ _
  · split
    · exact .modify fun _ _ h => (h.emitOp _ _).emitByte _ _
    · exact .throw _ _ _ _

/-- A load pushes one entry. -/
theorem paired_load (type : JType) (slot : Nat) : Paired sized n (n + 1) (load type slot) (load type slot) := by
  unfold load
  cases type with
  | void => exact Parallel.seq (.throw _ _ (fun _ _ => False) _) (.modify fun _ _ h => h.elim)
  | prim p => exact Parallel.seq (paired_loadSlot _ _ _) (.modify fun _ _ h => h.pushType (.prim p))
  | named k name => exact Parallel.seq (paired_loadSlot _ _ _) (.modify fun _ _ h => h.pushType (.named k name))
  | array c => exact Parallel.seq (paired_loadSlot _ _ _) (.modify fun _ _ h => h.pushType (.array c))

/-- A call takes its arguments and pushes its result. -/
theorem paired_invoke (opcode : UInt8) (i j : UInt16) (params : List JType) (result : JType)
    (h : sized = true ∨ params.length + (if opcode = Opcode.invokestatic then 0 else 1) ≤ n) :
    Paired sized n (n - (params.length + if opcode = Opcode.invokestatic then 0 else 1) + if result = .void then 0 else 1)
      (invoke opcode i params result) (invoke opcode j params result) := by
  have hrest : Paired sized n (n - (params.length + if opcode = Opcode.invokestatic then 0 else 1) + if result = .void then 0 else 1)
      (do pop (params.length + if opcode = Opcode.invokestatic then 0 else 1); modify (·.pushType result))
      (do pop (params.length + if opcode = Opcode.invokestatic then 0 else 1); modify (·.pushType result)) :=
    .seq (paired_pop _ h) (.modify fun _ _ h => h.pushType result)
  unfold invoke
  refine Parallel.seq (.modify fun _ _ h => (h.emitOp _ _).emitWord _ _) ?_
  by_cases hinterface : opcode = Opcode.invokeinterface
  · simp only [if_pos hinterface]
    exact .seq (.modify fun _ _ h => (h.emitByte _ _).emitByte _ _) hrest
  · simp only [if_neg hinterface]
    exact hrest

/-- A call site takes what it captures and pushes one entry. -/
theorem paired_invokeDynamic (i j : UInt16) (captured : Nat) (result : StackType) (h : sized = true ∨ captured ≤ n) :
    Paired sized n (n - captured + 1) (invokeDynamic i captured result) (invokeDynamic j captured result) :=
  .seq (.modify fun _ _ h => ((h.emitOp _ _).emitWord _ _).emitWord _ _) (.seq (paired_pop captured h) (.modify fun _ _ h => h.push _ _))

/-- A return from a body that is sized. -/
theorem paired_emitReturn (type : JType) :
    Paired true n (n - if type = .void then 0 else 1) (emitReturn type) (emitReturn type) :=
  .seq (.modify fun _ _ h => h.emitOp _ _) (paired_pop _ (.inl rfl))

end CodeBuffer

end Linkage
