import Linkage.Proofs.ClassFile.Buffer
import Linkage.Proofs.Machine.Instruction

/-!
# Writing instructions

The steps that write into a code buffer, seen as what they write: instructions that are read back from the bytes (`Writes`), and what
they do to the tracked stack.
-/

namespace Linkage

namespace SlotKind

/-- The number that the opcodes of loads and returns give a sort. -/
def number : SlotKind → Nat
  | int => 0
  | long => 1
  | float => 2
  | double => 3
  | reference => 4

/-- The opcode that loads a value of the sort from the slot of its operand. -/
def loadOpcode (k : SlotKind) : UInt8 :=
  Opcode.iload + k.number.toUInt8

/-- The opcode that loads a value of the sort from slot zero. -/
def loadOpcode0 (k : SlotKind) : UInt8 :=
  Opcode.iload0 + (4 * k.number).toUInt8

end SlotKind

namespace Instruction

/-- A load in its one-byte form. -/
theorem decodes_load0 (k : SlotKind) {slot : Nat} (h : slot ≤ 3) :
    Decodes [k.loadOpcode0 + slot.toUInt8] [load k slot] := by
  have hslot : slot = 0 ∨ slot = 1 ∨ slot = 2 ∨ slot = 3 := by omega
  rcases hslot with rfl | rfl | rfl | rfl <;> cases k <;> exact decodes_single (by decide) (by decide)

/-- A load with the slot as its operand. -/
theorem decodes_load (k : SlotKind) {slot : Nat} (h : slot ≤ 255) : Decodes [k.loadOpcode, slot.toUInt8] [load k slot] := by
  have hslot : slot.toUInt8.toNat = slot := by
    rw [Nat.toUInt8_eq, UInt8.toNat_ofNat']
    exact Nat.mod_eq_of_lt (by omega)
  have hsize : operandCount k.loadOpcode.toNat = 1 := by
    cases k <;> decide
  refine decodes_single hsize.symm ?_
  have hload : withByte? k.loadOpcode.toNat slot.toUInt8 = some (load k slot.toUInt8.toNat) := by
    cases k <;> rfl
  rw [ofParts?, hload, hslot]

/-- The small constants have opcodes of their own, in the order of their values. -/
theorem decodes_iconst {v : Int32} (h : -1 ≤ v.toInt ∧ v.toInt ≤ 5) :
    Decodes [Opcode.iconst0 + v.toUInt32.toUInt8] [pushInt v] := by
  have hv : v = -1 ∨ v = 0 ∨ v = 1 ∨ v = 2 ∨ v = 3 ∨ v = 4 ∨ v = 5 := by
    simp only [← Int32.toInt_inj]
    have hneg : Int32.toInt (-1) = -1 := rfl
    have h₀ : Int32.toInt 0 = 0 := rfl
    have h₁ : Int32.toInt 1 = 1 := rfl
    have h₂ : Int32.toInt 2 = 2 := rfl
    have h₃ : Int32.toInt 3 = 3 := rfl
    have h₄ : Int32.toInt 4 = 4 := rfl
    have h₅ : Int32.toInt 5 = 5 := rfl
    omega
  rcases hv with rfl | rfl | rfl | rfl | rfl | rfl | rfl <;> exact decodes_single (by decide) (by decide)

/-- A constant of one signed byte is read back from its low byte. -/
theorem decodes_bipush {v : Int32} (h : -128 ≤ v.toInt ∧ v.toInt ≤ 127) :
    Decodes [Opcode.bipush, v.toUInt32.toUInt8] [pushInt v] := by
  have hbyte : v.toUInt32.toUInt8.toInt8 = v.toInt8 := by
    apply Int8.toBitVec.inj
    change v.toUInt32.toUInt8.toBitVec = v.toBitVec.signExtend 8
    rw [UInt32.toBitVec_toUInt8, BitVec.signExtend_eq_setWidth_of_le _ (by decide)]
    rfl
  have hread : v.toUInt32.toUInt8.toInt8.toInt32 = v := by
    apply Int32.toInt_inj.mp
    rw [hbyte, Int8.toInt_toInt32, Int32.toInt_toInt8, Int.bmod_def]
    omega
  refine decodes_single rfl ?_
  change some (pushInt v.toUInt32.toUInt8.toInt8.toInt32) = _
  rw [hread]

/-- A constant of two signed bytes is read back from its low word. -/
theorem decodes_sipush {v : Int32} (h : -32768 ≤ v.toInt ∧ v.toInt ≤ 32767) :
    Decodes (Opcode.sipush :: be16 v.toUInt32.toUInt16) [pushInt v] := by
  have hword : v.toUInt32.toUInt16.toInt16 = v.toInt16 := by
    apply Int16.toBitVec.inj
    change v.toUInt32.toUInt16.toBitVec = v.toBitVec.signExtend 16
    rw [UInt32.toBitVec_toUInt16, BitVec.signExtend_eq_setWidth_of_le _ (by decide)]
    rfl
  have hread : v.toUInt32.toUInt16.toInt16.toInt32 = v := by
    apply Int32.toInt_inj.mp
    rw [hword, Int16.toInt_toInt32, Int32.toInt_toInt16, Int.bmod_def]
    omega
  refine decodes_word rfl ?_
  change some (pushInt v.toUInt32.toUInt16.toInt16.toInt32) = _
  rw [hread]

/-- The bytes of a static field access. -/
theorem decodes_getstatic (i : UInt16) : Decodes (Opcode.getstatic :: be16 i) [getstatic i] :=
  decodes_word rfl rfl

/-- The bytes of a field access. -/
theorem decodes_getfield (i : UInt16) : Decodes (Opcode.getfield :: be16 i) [getfield i] :=
  decodes_word rfl rfl

end Instruction

namespace CodeBuffer

variable {b c d : CodeBuffer} {is js : List Instruction}

/-- The bytes of `c` are those of `b` with the code of the instructions behind them. -/
def Appends (b c : CodeBuffer) (is : List Instruction) : Prop :=
  ∃ code, c.bytes.toList = b.bytes.toList ++ code ∧ Instruction.Decodes code is

/-- Appending nothing. -/
theorem Appends.refl (b : CodeBuffer) : b.Appends b [] :=
  ⟨[], by simp, .nil⟩

/-- What is appended to what was appended. -/
theorem Appends.trans (h : b.Appends c is) (h' : c.Appends d js) : b.Appends d (is ++ js) := by
  obtain ⟨code, hcode, his⟩ := h
  obtain ⟨code', hcode', hjs⟩ := h'
  exact ⟨code ++ code', by rw [hcode', hcode, List.append_assoc], his.append hjs⟩

/-- Only the bytes matter. -/
theorem Appends.of_bytes (h : b.Appends c is) (hd : d.bytes = c.bytes) : b.Appends d is := by
  unfold Appends
  rw [hd]
  exact h

/-- What is written is no longer than its instructions can be. -/
theorem Appends.size_le (h : b.Appends c is) : c.bytes.size ≤ b.bytes.size + 5 * is.length := by
  obtain ⟨code, hcode, his⟩ := h
  have hlength := congrArg List.length hcode
  rw [List.length_append, Array.length_toList, Array.length_toList] at hlength
  rw [hlength]
  exact Nat.add_le_add_left (Instruction.length_le_of_decodeAll his.decodeAll) _

/-- `c` is `b` with the code of the instructions behind it, and the same tracked stack. -/
structure Writes (b c : CodeBuffer) (is : List Instruction) : Prop where
  appends : b.Appends c is
  stack : c.stack = b.stack
  depth : c.depth = b.depth
  maxDepth : c.maxDepth = b.maxDepth
  maxLocals : c.maxLocals = b.maxLocals

section Steps

variable {opcode : UInt8} {i : Instruction}

/-- An instruction of one byte is written. -/
theorem writes_emitOp (b : CodeBuffer) (h : Instruction.Decodes [opcode] [i]) : b.Writes (b.emitOp opcode) [i] :=
  ⟨⟨[opcode], by simp [emitOp], h⟩, rfl, rfl, rfl, rfl⟩

/-- An instruction of two bytes is written. -/
theorem writes_emitOp1 (b : CodeBuffer) {operand : UInt8} (h : Instruction.Decodes [opcode, operand] [i]) :
    b.Writes (b.emitOp1 opcode operand) [i] :=
  ⟨⟨[opcode, operand], by simp [emitOp1, emitOp, emitByte], h⟩, rfl, rfl, rfl, rfl⟩

/-- An instruction of three bytes is written. -/
theorem writes_emitOp2 (b : CodeBuffer) {operand : UInt16} (h : Instruction.Decodes (opcode :: be16 operand) [i]) :
    b.Writes (b.emitOp2 opcode operand) [i] :=
  ⟨⟨opcode :: be16 operand, by simp [emitOp2, emitOp, emitWord], h⟩, rfl, rfl, rfl, rfl⟩

end Steps

/-- Pushing an entry writes nothing. -/
theorem bytes_push (b : CodeBuffer) (t : StackType) : (b.push t).bytes = b.bytes :=
  rfl

/-- Pushing what is known of a type writes nothing. -/
theorem bytes_pushType (b : CodeBuffer) (type : JType) : (b.pushType type).bytes = b.bytes := by
  unfold pushType
  split <;> rfl

/-- A type with values has a stack entry and a sort of slot. -/
theorem pushType_eq_push {entry : StackType} {type : JType} (h : StackType.ofType? type = some entry) (b : CodeBuffer) :
    b.pushType type = b.push entry := by
  unfold pushType
  rw [h]

/-- A load is written in its short or its long form, and not at all beyond slot 255. -/
theorem ensures_loadSlot (k : SlotKind) (slot : Nat) (b : CodeBuffer) :
    Ensures (loadSlot k.loadOpcode k.loadOpcode0 slot) b (fun _ c => b.Writes c [.load k slot] ∧ slot ≤ 255)
      (fun fault c => fault = .tooManyLocals slot ∧ 255 < slot ∧ c = b) := by
  unfold loadSlot
  split
  · rename_i h
    rw [ensures_modify]
    exact ⟨writes_emitOp b (Instruction.decodes_load0 k h), by omega⟩
  · split
    · rename_i h
      rw [ensures_modify]
      exact ⟨writes_emitOp1 b (Instruction.decodes_load k h), h⟩
    · rename_i h
      rw [ensures_throw]
      exact ⟨rfl, by omega, rfl⟩

/-- The loads of a type are those of its sort. -/
theorem load_eq {type : JType} {k : SlotKind} (h : SlotKind.ofType? type = some k) (slot : Nat) :
    load type slot = (do loadSlot k.loadOpcode k.loadOpcode0 slot; modify (·.pushType type)) := by
  cases type with
  | prim p =>
    have hopcode : Opcode.loadPrimitive p = k.loadOpcode ∧ Opcode.loadPrimitive0 p = k.loadOpcode0 := by
      cases p <;> cases h <;> decide
    rw [← hopcode.1, ← hopcode.2]
    rfl
  | named _ n =>
    cases h
    rfl
  | array c =>
    cases h
    rfl
  | void => cases h

/-- The types of the values that can be loaded are those of which a value can be on the stack. -/
theorem ofType?_cases (type : JType) :
    type = .void ∨ ∃ k entry, SlotKind.ofType? type = some k ∧ StackType.ofType? type = some entry := by
  cases type with
  | prim p => cases p <;> exact .inr ⟨_, _, rfl, rfl⟩
  | named _ n => exact .inr ⟨_, _, rfl, rfl⟩
  | array c => exact .inr ⟨_, _, rfl, rfl⟩
  | void => exact .inl rfl

/-- A load writes one instruction and pushes one entry, each of the sort of the type. It fails for nothing but its type and its slot, and
then writes nothing. -/
theorem ensures_load (type : JType) (slot : Nat) (b : CodeBuffer) :
    Ensures (load type slot) b
      (fun _ t => ∃ k entry c, SlotKind.ofType? type = some k ∧ StackType.ofType? type = some entry ∧ slot ≤ 255 ∧
        b.Writes c [.load k slot] ∧ t = c.push entry)
      (fun fault t => (type = .void ∧ fault = .unsupported .loadOfVoid ∨ 255 < slot ∧ fault = .tooManyLocals slot) ∧ t = b) := by
  rcases ofType?_cases type with rfl | ⟨k, entry, hk, hentry⟩
  · unfold load
    rw [ensures_bind, ensures_throw]
    exact ⟨.inl ⟨rfl, rfl⟩, rfl⟩
  · rw [load_eq hk, ensures_bind]
    refine (ensures_loadSlot k slot b).mono ?_ ?_
    · intro _ c hview
      obtain ⟨hc, hslot⟩ := hview
      rw [ensures_modify]
      exact ⟨k, entry, c, hk, hentry, hslot, hc, pushType_eq_push hentry c⟩
    · intro fault c hview
      obtain ⟨hfault, hslot, hc⟩ := hview
      exact ⟨.inr ⟨hslot, hfault⟩, hc⟩

/-- A load of a pool entry takes the short form for an index of one byte. -/
theorem loadConstant_eq_push (b : CodeBuffer) (index : UInt16) (entry : StackType) :
    ∃ c, b.Writes c [.pushConstant index] ∧ b.loadConstant index entry = c.push entry := by
  unfold loadConstant
  split
  · rename_i h
    have hindex : index.toUInt8.toUInt16 = index := by
      apply UInt16.toNat_inj.mp
      have h255 : index.toNat ≤ 255 := UInt16.le_iff_toNat_le.mp h
      rw [UInt8.toNat_toUInt16, UInt16.toNat_toUInt8]
      exact Nat.mod_eq_of_lt (by omega)
    refine ⟨_, writes_emitOp1 b (Instruction.decodes_single rfl ?_), rfl⟩
    rw [Instruction.ofParts?]
    change some (Instruction.pushConstant index.toUInt8.toUInt16) = _
    rw [hindex]
  · exact ⟨_, writes_emitOp2 b (Instruction.decodes_word rfl rfl), rfl⟩

/-- Writing an instruction keeps the depth in step. -/
theorem Writes.balanced (h : b.Writes c is) (hb : b.Balanced) : c.Balanced := by
  unfold Balanced
  rw [h.depth, h.stack]
  exact hb

end CodeBuffer

/-! ## Calls -/

namespace CallKind

/-- The opcode of a call. -/
def opcode : CallKind → UInt8
  | onClass => Opcode.invokestatic
  | onObject => Opcode.invokevirtual
  | onInterface => Opcode.invokeinterface
  | special => Opcode.invokespecial

end CallKind

namespace CodeBuffer

variable {b : CodeBuffer}

/-- A call through an interface has a count of slots behind its index. -/
theorem writes_invokeinterface (b : CodeBuffer) (index : UInt16) (count : UInt8) :
    b.Writes (((b.emitOp2 Opcode.invokeinterface index).emitByte count).emitByte 0) [.call .onInterface index] := by
  have hparts : Instruction.ofParts? Opcode.invokeinterface.toNat (be16 index ++ [count, 0]) = some (.call .onInterface index) := by
    change some (Instruction.call .onInterface (word16 (index >>> 8).toUInt8 index.toUInt8)) = _
    rw [word16_be16]
  exact ⟨⟨Opcode.invokeinterface :: (be16 index ++ [count, 0]), by simp [emitOp2, emitOp, emitWord, emitByte],
    Instruction.decodes_single rfl hparts⟩, rfl, rfl, rfl, rfl⟩

/-- A call writes one instruction, takes the arguments and the object it is made on, and pushes the result. -/
theorem ensures_invoke (kind : CallKind) (index : UInt16) (params : List JType) (result : JType) (b : CodeBuffer) :
    Ensures (invoke kind.opcode index params result) b
      (fun _ t => ∃ c d, b.Writes c [.call kind index] ∧ Popped (params.length + kind.targets) c d ∧ t = d.pushType result)
      (fun fault _ => fault = .stackUnderflow ∧ b.stack.length < params.length + kind.targets) := by
  have hpops : ∀ c, b.Writes c [.call kind index] →
      Ensures (do pop (params.length + kind.targets); modify (·.pushType result)) c
        (fun _ t => ∃ c d, b.Writes c [.call kind index] ∧ Popped (params.length + kind.targets) c d ∧ t = d.pushType result)
        (fun fault _ => fault = .stackUnderflow ∧ b.stack.length < params.length + kind.targets) := by
    intro c hc
    rw [ensures_bind]
    refine (ensures_pop _ c).mono ?_ ?_
    · intro _ d hd
      rw [ensures_modify]
      exact ⟨c, d, hc, hd, rfl⟩
    · intro fault _ hview
      obtain ⟨hfault, -, hlt⟩ := hview
      rw [hc.stack] at hlt
      exact ⟨hfault, hlt⟩
  unfold invoke
  rw [ensures_bind, ensures_modify]
  cases kind with
  | onInterface => exact hpops _ (writes_invokeinterface b index (slots params + 1).toUInt8)
  | onClass => exact hpops _ (writes_emitOp2 b (Instruction.decodes_word rfl rfl))
  | onObject => exact hpops _ (writes_emitOp2 b (Instruction.decodes_word rfl rfl))
  | special => exact hpops _ (writes_emitOp2 b (Instruction.decodes_word rfl rfl))

/-- A call site takes what it captures and pushes what it produces. -/
theorem ensures_invokeDynamic (index : UInt16) (captured : Nat) (result : StackType) (b : CodeBuffer) :
    Ensures (invokeDynamic index captured result) b
      (fun _ t => t.bytes.toList = b.bytes.toList ++ (Opcode.invokedynamic :: be16 index ++ [0, 0]) ∧
        t.stack = result :: b.stack.drop captured)
      (fun _ _ => True) := by
  unfold invokeDynamic
  rw [ensures_bind, ensures_modify, ensures_bind]
  refine (ensures_pop captured _).mono ?_ (fun _ _ _ => trivial)
  intro _ t ht
  rw [ensures_modify, ht.eq]
  exact ⟨by simp [push, emitOp2, emitOp, emitWord, be16], rfl⟩

end CodeBuffer

end Linkage
