import Linkage.Proofs.Machine.Writing

/-!
# Operations on a buffer

A code buffer is worked on by operations in a row, and goes on being used after one that failed. Whatever becomes of them, the bytes that
are there stay, and each operation writes its bytes behind them (`toList_operated`). A body is written by some of the operations
(`toList_written`).
-/

namespace Linkage

/-! ## Writing a body -/

namespace CodeBuffer

/-- A step that writes into a body. -/
inductive Write where
  | op (opcode : UInt8)
  | op1 (opcode operand : UInt8)
  | op2 (opcode : UInt8) (operand : UInt16)
  | load (type : JType) (slot : Nat)
  | loadConstant (index : UInt16) (entry : StackType)
  | invoke (opcode : UInt8) (index : UInt16) (params : List JType) (result : JType)
  | invokeDynamic (index : UInt16) (captured : Nat) (result : StackType)
  | leave (type : JType)

namespace Write

def step : Write → Step Unit
  | op opcode => modify (·.emitOp opcode)
  | op1 opcode operand => modify (·.emitOp1 opcode operand)
  | op2 opcode operand => modify (·.emitOp2 opcode operand)
  | load type slot => CodeBuffer.load type slot
  | loadConstant index entry => modify (·.loadConstant index entry)
  | invoke opcode index params result => CodeBuffer.invoke opcode index params result
  | invokeDynamic index captured result => CodeBuffer.invokeDynamic index captured result
  | leave type => emitReturn type

/-- The bytes that are written, also when the step fails: a load of nothing or beyond slot 255 writes none, a step that finds too few values on
the tracked stack has written its instruction by then. -/
def code : Write → List UInt8
  | op opcode => [opcode]
  | op1 opcode operand => [opcode, operand]
  | op2 opcode operand => opcode :: be16 operand
  | load type slot =>
    match SlotKind.ofType? type with
    | none => []
    | some k => if slot ≤ 3 then [k.loadOpcode0 + slot.toUInt8] else if slot ≤ 255 then [k.loadOpcode, slot.toUInt8] else []
  | loadConstant index _ => if index ≤ 255 then [Opcode.ldc, index.toUInt8] else Opcode.ldcW :: be16 index
  | invoke opcode index params _ =>
    opcode :: be16 index ++ if opcode = Opcode.invokeinterface then [(slots params + 1).toUInt8, 0] else []
  | invokeDynamic index _ _ => Opcode.invokedynamic :: be16 index ++ [0, 0]
  | leave type => [Opcode.returnOf type]

end Write

/-- The buffer behind steps in order, those that fail among them. -/
def written (b : CodeBuffer) (writes : List Write) : CodeBuffer :=
  writes.foldl (fun c w => (runStep w.step c).2) b

/-- An operation on a buffer: a step that writes into a body, plain bytes, and a step on the tracked stack or on the local slots alone. -/
inductive Operation where
  | write (w : Write)
  | byte (value : UInt8)
  | word (value : UInt16)
  | push (entry : StackType)
  | pop (count : Nat)
  | ensureLocals (slots : Nat)

namespace Operation

def step : Operation → Step Unit
  | write w => w.step
  | byte value => modify (·.emitByte value)
  | word value => modify (·.emitWord value)
  | push entry => modify (·.push entry)
  | pop count => CodeBuffer.pop count
  | ensureLocals slots => CodeBuffer.ensureLocals slots

/-- The bytes that are written, also when the operation fails. -/
def code : Operation → List UInt8
  | write w => w.code
  | byte value => [value]
  | word value => be16 value
  | push _ => []
  | pop _ => []
  | ensureLocals _ => []

end Operation

/-- The buffer behind operations in order, those that fail among them. -/
def operated (b : CodeBuffer) (ops : List Operation) : CodeBuffer :=
  ops.foldl (fun c op => (runStep op.step c).2) b

/-- Operations behind operations are operations in a row. -/
theorem operated_append (b : CodeBuffer) (first rest : List Operation) : b.operated (first ++ rest) = (b.operated first).operated rest :=
  List.foldl_append

/-- The last of some operations works on what the others leave. -/
theorem operated_concat (b : CodeBuffer) (ops : List Operation) (op : Operation) :
    b.operated (ops ++ [op]) = (runStep op.step (b.operated ops)).2 :=
  List.foldl_append

/-- Steps in a row are operations in a row. -/
theorem written_eq_operated (b : CodeBuffer) (writes : List Write) : b.written writes = b.operated (writes.map .write) := by
  rw [operated, List.foldl_map]
  rfl

/-! ## Bytes -/

variable {b : CodeBuffer} {first second code : List UInt8}

/-- However the step ends, it has written the bytes behind those of the buffer, and no more. -/
def Leaves (step : Step Unit) (b : CodeBuffer) (code : List UInt8) : Prop :=
  Ensures step b (fun _ c => c.bytes.toList = b.bytes.toList ++ code) fun _ c => c.bytes.toList = b.bytes.toList ++ code

/-- A change that cannot fail leaves the bytes that it writes. -/
theorem leaves_modify {f : CodeBuffer → CodeBuffer} (h : (f b).bytes.toList = b.bytes.toList ++ code) : Leaves (modify f) b code :=
  h

/-- What cannot fail is written, whatever becomes of the rest. -/
theorem leaves_modify_bind {f : CodeBuffer → CodeBuffer} {y : PUnit → Step Unit} (h : (f b).bytes.toList = b.bytes.toList ++ first)
    (hy : Leaves (y ⟨⟩) (f b) second) : Leaves (modify f >>= y) b (first ++ second) := by
  unfold Leaves at *
  rw [h, List.append_assoc] at hy
  rwa [ensures_bind, ensures_modify]

/-- What writes no more may follow on a step that can fail. -/
theorem leaves_bind_nil {x : Step Unit} {y : PUnit → Step Unit} (hx : Leaves x b code) (hy : ∀ c, Leaves (y ⟨⟩) c []) :
    Leaves (x >>= y) b code := by
  unfold Leaves at *
  rw [ensures_bind]
  refine hx.mono (fun _ c hc => ?_) (fun _ _ h => h)
  have hrest := hy c
  rwa [List.append_nil, hc] at hrest

/-- Popping writes nothing, whether it fails or not. -/
theorem leaves_pop (count : Nat) (b : CodeBuffer) : Leaves (pop count) b [] := by
  unfold Leaves
  rw [List.append_nil]
  exact (ensures_pop count b).mono (fun _ _ h => by rw [h.eq]) (fun _ _ h => by rw [h.2.1])

/-- Pushing an entry writes nothing. -/
theorem leaves_pushType (type : JType) (b : CodeBuffer) : Leaves (modify (·.pushType type)) b [] :=
  leaves_modify (by rw [bytes_pushType, List.append_nil])

/-- An instruction is one byte. -/
theorem toList_emitOp (b : CodeBuffer) (opcode : UInt8) : (b.emitOp opcode).bytes.toList = b.bytes.toList ++ [opcode] := by
  simp [emitOp]

/-- An instruction with one byte behind it is two bytes. -/
theorem toList_emitOp1 (b : CodeBuffer) (opcode operand : UInt8) :
    (b.emitOp1 opcode operand).bytes.toList = b.bytes.toList ++ [opcode, operand] := by
  simp [emitOp1, emitOp, emitByte]

/-- An instruction with one word behind it is three bytes, the higher one of the word first. -/
theorem toList_emitOp2 (b : CodeBuffer) (opcode : UInt8) (operand : UInt16) :
    (b.emitOp2 opcode operand).bytes.toList = b.bytes.toList ++ opcode :: be16 operand := by
  simp [emitOp2, emitOp, emitWord]

/-- A load writes its short form, its long form or nothing. -/
theorem leaves_load (type : JType) (slot : Nat) (b : CodeBuffer) : Leaves (load type slot) b (Write.load type slot).code := by
  rcases ofType?_cases type with rfl | ⟨k, entry, hk, -⟩
  · exact (List.append_nil _).symm
  · rw [load_eq hk, Write.code, hk]
    refine leaves_bind_nil ?_ (leaves_pushType type)
    unfold loadSlot
    dsimp only
    split
    · exact leaves_modify (toList_emitOp _ _)
    · split
      · exact leaves_modify (toList_emitOp1 _ _ _)
      · exact (List.append_nil _).symm

/-- The load of a constant writes its short form or its long form. -/
theorem toList_loadConstant (b : CodeBuffer) (index : UInt16) (entry : StackType) :
    (b.loadConstant index entry).bytes.toList = b.bytes.toList ++ (Write.loadConstant index entry).code := by
  rw [loadConstant, bytes_push, Write.code]
  split
  · exact toList_emitOp1 _ _ _
  · exact toList_emitOp2 _ _ _

/-- A call has written its instruction by the time it runs out of entries. -/
theorem leaves_invoke (opcode : UInt8) (index : UInt16) (params : List JType) (result : JType) (b : CodeBuffer) :
    Leaves (invoke opcode index params result) b (Write.invoke opcode index params result).code := by
  have hrest : ∀ count c, Leaves (do pop count; modify (·.pushType result)) c [] :=
    fun count c => leaves_bind_nil (leaves_pop count c) (leaves_pushType result)
  refine leaves_modify_bind (toList_emitOp2 b opcode index) ?_
  dsimp only
  split
  · refine leaves_bind_nil (leaves_modify ?_) (hrest _)
    simp [emitByte]
  · exact hrest _ _

/-- A dynamic call has written its instruction by the time it runs out of entries. -/
theorem leaves_invokeDynamic (index : UInt16) (captured : Nat) (result : StackType) (b : CodeBuffer) :
    Leaves (invokeDynamic index captured result) b (Write.invokeDynamic index captured result).code := by
  have hrest : ∀ c, Leaves (do pop captured; modify (·.push result)) c [] :=
    fun c => leaves_bind_nil (leaves_pop captured c) fun c => leaves_modify (by rw [bytes_push, List.append_nil])
  have hcode : ((b.emitOp2 Opcode.invokedynamic index).emitWord 0).bytes.toList =
      b.bytes.toList ++ (Write.invokeDynamic index captured result).code := by
    simp [emitWord, toList_emitOp2, Write.code, be16]
  exact leaves_bind_nil (leaves_modify hcode) hrest

/-- A step writes its bytes behind those that are there, also when it fails. -/
theorem leaves_step (b : CodeBuffer) (w : Write) : Leaves w.step b w.code := by
  cases w with
  | op opcode => exact leaves_modify (toList_emitOp b opcode)
  | op1 opcode operand => exact leaves_modify (toList_emitOp1 b opcode operand)
  | op2 opcode operand => exact leaves_modify (toList_emitOp2 b opcode operand)
  | load type slot => exact leaves_load type slot b
  | loadConstant index entry => exact leaves_modify (toList_loadConstant b index entry)
  | invoke opcode index params result => exact leaves_invoke opcode index params result b
  | invokeDynamic index captured result => exact leaves_invokeDynamic index captured result b
  | leave type => exact leaves_bind_nil (leaves_modify (toList_emitOp b _)) (leaves_pop _)

/-- An operation writes its bytes behind those that are there, also when it fails. -/
theorem leaves_operation (b : CodeBuffer) (op : Operation) : Leaves op.step b op.code := by
  cases op with
  | write w => exact leaves_step b w
  | byte value => exact leaves_modify (by simp [emitByte, Operation.code])
  | word value => exact leaves_modify (by simp [emitWord, Operation.code])
  | push entry => exact leaves_modify (by rw [bytes_push, Operation.code, List.append_nil])
  | pop count => exact leaves_pop count b
  | ensureLocals slots =>
    rw [Operation.step, ensureLocals]
    split
    · exact leaves_modify (List.append_nil _).symm
    · exact (List.append_nil _).symm

/-- Operations in a row write their bytes one after the other. -/
theorem toList_operated (b : CodeBuffer) (ops : List Operation) :
    (b.operated ops).bytes.toList = b.bytes.toList ++ ops.flatMap Operation.code := by
  induction ops generalizing b with
  | nil => simp [operated]
  | cons op ops ih =>
    have hstep : (runStep op.step b).2.bytes.toList = b.bytes.toList ++ op.code := (leaves_operation b op).snd_runStep
    have hrest := ih (runStep op.step b).2
    rw [hstep, List.append_assoc] at hrest
    exact hrest

/-- Steps in a row write their bytes one after the other. -/
theorem toList_written (b : CodeBuffer) (writes : List Write) :
    (b.written writes).bytes.toList = b.bytes.toList ++ writes.flatMap Write.code := by
  rw [written_eq_operated, toList_operated, List.flatMap_map]
  rfl

end CodeBuffer

end Linkage
