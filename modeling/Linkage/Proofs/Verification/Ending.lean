import Linkage.Proofs.ClassFile.Addition
import Linkage.Proofs.Machine.Operations
import Linkage.Proofs.Verification.Checks

/-!
# The last byte of a body

The verifier looks at the last byte of a body. That byte belongs to the last instruction, but it is its opcode only where the instruction has no
operands: a body also passes when the last operand byte, such as the number of a local or the low byte of a pool index, has the value of a return
(`ClassFile.checkMethods_addMethod_iff`).
-/

namespace Linkage

/-! ## Instructions and their bytes -/

/-- The number of operand bytes that belong to an opcode, by the class-file format. It is left open for the two switches, which are padded, and
for `wide`, where it depends on the opcode that follows. -/
def Opcode.operandBytes? (opcode : UInt8) : Option Nat :=
  if opcode ∈ [0xaa, 0xab, 0xc4] then none
  else if opcode ∈ [0x10, 0x12, 0xa9, 0xbc] ∨ 0x15 ≤ opcode ∧ opcode ≤ 0x19 ∨ 0x36 ≤ opcode ∧ opcode ≤ 0x3a then some 1
  else if opcode ∈ [0x11, 0x13, 0x14, 0x84, 0xbb, 0xbd, 0xc0, 0xc1, 0xc6, 0xc7] ∨ 0x99 ≤ opcode ∧ opcode ≤ 0xa8 ∨
    0xb2 ≤ opcode ∧ opcode ≤ 0xb8 then some 2
  else if opcode = 0xc5 then some 3
  else if opcode ∈ [0xb9, 0xba, 0xc8, 0xc9] then some 4
  else some 0

/-- Returns have no operands. -/
theorem Opcode.operandBytes?_of_mem_returns {opcode : UInt8} (h : opcode ∈ returns) : operandBytes? opcode = some 0 := by
  simp only [returns, List.mem_cons, List.not_mem_nil, or_false] at h
  rcases h with rfl | rfl | rfl | rfl | rfl | rfl <;> rfl

/-- An instruction as it is written. -/
structure CodedInstruction where
  opcode : UInt8
  operands : List UInt8
  deriving DecidableEq

namespace CodedInstruction

def bytes (i : CodedInstruction) : List UInt8 :=
  i.opcode :: i.operands

/-- The instruction has all its operands, and no more. -/
def IsComplete (i : CodedInstruction) : Prop :=
  ∀ count ∈ Opcode.operandBytes? i.opcode, i.operands.length = count

instance : DecidablePred IsComplete :=
  fun i => inferInstanceAs (Decidable (∀ count ∈ Opcode.operandBytes? i.opcode, i.operands.length = count))

def IsReturn (i : CodedInstruction) : Prop :=
  i.opcode ∈ Opcode.returns

instance : DecidablePred IsReturn :=
  fun i => inferInstanceAs (Decidable (i.opcode ∈ Opcode.returns))

/-- The last operand byte has the value of a return. -/
def EndsLikeReturn (i : CodedInstruction) : Prop :=
  ∃ byte ∈ i.operands.getLast?, byte ∈ Opcode.returns

/-- The last byte of a complete instruction has the value of a return when the instruction is one, or its last operand byte has that value. -/
theorem IsComplete.getLast?_bytes {i : CodedInstruction} (h : i.IsComplete) :
    (∃ byte ∈ i.bytes.getLast?, byte ∈ Opcode.returns) ↔ i.IsReturn ∨ i.EndsLikeReturn := by
  obtain ⟨opcode, operands⟩ := i
  cases operands with
  | nil => simp [bytes, IsReturn, EndsLikeReturn]
  | cons operand rest =>
    have hreturn : opcode ∉ Opcode.returns := fun hmem => nomatch h 0 (Opcode.operandBytes?_of_mem_returns hmem)
    simp [bytes, IsReturn, EndsLikeReturn, hreturn, List.getLast?_cons_cons]

/-- The last byte of code is the last byte of its last instruction. -/
theorem getLast?_flatMap_bytes (is : List CodedInstruction) :
    (is.flatMap bytes).getLast? = is.getLast?.bind fun last => last.bytes.getLast? := by
  rcases is.eq_nil_or_concat with rfl | ⟨front, last, rfl⟩
  · rfl
  · rw [List.concat_eq_append, List.flatMap_append, List.flatMap_singleton, List.getLast?_append, List.getLast?_concat, Option.bind_some,
      bytes, List.getLast?_cons, Option.some_or]

end CodedInstruction

/-! ## The check of an added method -/

namespace ClassFile

variable {f g : ClassFile} {access : Access} {name descriptor : String}

/-- An added method that is not abstract, with flags that go together, passes its check when the last byte of its code has the value of a
return. -/
theorem checkMethods_addMethod_iff_byte {code : CodeBuffer} (hf : f.pool.Fits) (hflags : access.conflicts f.isInterface = false)
    (hconcrete : access.isAbstract = false) (hadd : addMethod access name descriptor code f = .ok () g) :
    g.checkMethods = .ok () ↔
      (∀ m ∈ f.methods, g.checkMethod m = .ok ()) ∧ ∃ byte ∈ code.bytes.toList.getLast?, byte ∈ Opcode.returns := by
  obtain ⟨-, -, m, rfl, hrecords, -, -, hg⟩ := (outcome_addMethod (fun _ _ => True) 0 access name descriptor code hf).of_ok hadd
  obtain ⟨index, hattributes, hindex⟩ := hrecords.stored
  have hmethods : g.methods = f.methods.push m := by rw [hg]
  have hinterface : g.isInterface = f.isInterface := by rw [hg]
  have hbody : m.HasBody g ↔ ∃ byte ∈ code.bytes.toList.getLast?, byte ∈ Opcode.returns :=
    hasBody_iff_of_attributes hconcrete hattributes hindex hrecords.size
  have hplaced : m.Placed g ↔ m.HasBody g := by
    refine ⟨fun h => h.body, fun h => ⟨?_, ?_, ?_, h⟩⟩
    · rw [hinterface]
      exact hflags
    · exact ⟨_, Pool.utf8?_eq_some_iff.mp hrecords.name, rfl⟩
    · exact ⟨_, Pool.utf8?_eq_some_iff.mp hrecords.descriptor, rfl⟩
  simp only [checkMethods_eq_ok_iff, checkMethod_eq_ok_iff, hmethods, Array.mem_push, or_imp, forall_and, forall_eq, hplaced, hbody]

/-- Let the body of an added method be written in whatever steps, so that its bytes are those of complete instructions. If the method is not
abstract and its flags go together, the verifier accepts it exactly when the last instruction is a return or has a last operand byte of the value
of one. -/
theorem checkMethods_addMethod_iff {maxLocals : UInt16} {tracing : Bool} {writes : List CodeBuffer.Write} {is : List CodedInstruction}
    (hf : f.pool.Fits) (hflags : access.conflicts f.isInterface = false) (hconcrete : access.isAbstract = false)
    (hcomplete : ∀ i ∈ is, i.IsComplete) (hcode : writes.flatMap CodeBuffer.Write.code = is.flatMap CodedInstruction.bytes)
    (hadd : addMethod access name descriptor (.written (.create maxLocals tracing) writes) f = .ok () g) :
    g.checkMethods = .ok () ↔ (∀ m ∈ f.methods, g.checkMethod m = .ok ()) ∧
      ∃ last ∈ is.getLast?, last.IsReturn ∨ last.EndsLikeReturn := by
  have hbytes : (CodeBuffer.written (.create maxLocals tracing) writes).bytes.toList = is.flatMap CodedInstruction.bytes := by
    rw [CodeBuffer.toList_written, hcode]
    rfl
  rw [checkMethods_addMethod_iff_byte hf hflags hconcrete hadd, hbytes, CodedInstruction.getLast?_flatMap_bytes]
  cases hlast : is.getLast? with
  | none => simp
  | some last =>
    have hread := (hcomplete last (List.mem_of_getLast? hlast)).getLast?_bytes
    simp only [Option.bind_some, Option.mem_some_iff, exists_eq_left', hread]

/-- A class file with nothing in it. -/
def sampleEmpty : ClassFile where
  name := "demo/Main"
  isInterface := false
  majorVersion := 52

theorem not_hasMethod_sampleEmpty : ¬ sampleEmpty.HasMethod name descriptor :=
  not_hasMethod_of_empty rfl

/-- A body that loads its argument and returns it. -/
def sampleIdentity : CodeBuffer :=
  .written (.create 1 false) [.load (.ofClass "java/lang/Object") 0, .leave (.ofClass "java/lang/Object")]

/-- The body ends with a return, and is accepted. -/
theorem checkMethods_addMethod_iff_sampleIdentity :
    ∃ g, addMethod .accStatic "f" "(Ljava/lang/Object;)Ljava/lang/Object;" sampleIdentity sampleEmpty = .ok () g ∧ g.checkMethods = .ok () := by
  obtain ⟨g, hadd⟩ := addMethod_eq_ok .accStatic sampleIdentity not_hasMethod_sampleEmpty (by decide) (by decide)
  have hcomplete : ∀ i ∈ [CodedInstruction.mk Opcode.aload0 [], CodedInstruction.mk Opcode.areturn []], i.IsComplete := by decide
  refine ⟨g, hadd, (checkMethods_addMethod_iff (Nat.zero_le _) (by decide) (by decide) hcomplete (by decide) hadd).mpr ⟨nofun, ?_⟩⟩
  exact ⟨⟨Opcode.areturn, []⟩, rfl, .inl (by decide)⟩

/-- A load from slot 177, which is the number of the instruction that returns nothing. -/
def sampleSlot : CodedInstruction :=
  ⟨Opcode.aload, [177]⟩

/-- A body of the one instruction does not end with a return, and is accepted. -/
theorem checkMethods_sampleSlot :
    (CodeBuffer.Write.load (.ofClass "java/lang/Object") 177).code = sampleSlot.bytes ∧ sampleSlot.IsComplete ∧ ¬ sampleSlot.IsReturn ∧
      ∃ g, addMethod .accStatic "f" "()V" (.written (.create 178 false) [.load (.ofClass "java/lang/Object") 177]) sampleEmpty = .ok () g ∧
        g.checkMethods = .ok () := by
  obtain ⟨g, hadd⟩ := addMethod_eq_ok .accStatic (.written (.create 178 false) [.load (.ofClass "java/lang/Object") 177])
    not_hasMethod_sampleEmpty (by decide) (by decide)
  refine ⟨rfl, by decide, by decide, g, hadd, ?_⟩
  exact (checkMethods_addMethod_iff_byte (Nat.zero_le _) (by decide) (by decide) hadd).mpr ⟨nofun, 177, by decide, by decide⟩

end ClassFile

end Linkage
