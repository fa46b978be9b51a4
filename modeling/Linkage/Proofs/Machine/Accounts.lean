import Linkage.Proofs.Machine.Operations
import Mathlib.Data.List.Induction
import Mathlib.Data.List.Infix
import Mathlib.Order.Bounds.Basic

/-!
# What a buffer accounts for

An operation on a code buffer takes entries off the tracked stack first, and pushes one at the most, last (`Advances`). So the depths that
it passes are no larger than those before and behind it, and a depth that is in step with the entries never falls below zero. As long as
the operand stack fits into 16 bits, a buffer accounts for all operations that it went through, the failed ones among them
(`accounts_operated`).
-/

namespace Linkage

namespace CodeBuffer

variable {b : CodeBuffer}

/-! ## Operations and the tracked stack -/

/-- `c` is what becomes of `b` when nothing is pushed: the tracked stack loses entries on top, if any, and goes on being in step with its
depth, and local slots may be added. -/
structure Drains (b c : CodeBuffer) : Prop where
  stack : c.stack <:+ b.stack
  maxDepth : c.maxDepth = b.maxDepth
  maxLocals : b.maxLocals ≤ c.maxLocals
  balanced : b.Balanced → c.Balanced

variable {c d : CodeBuffer}

namespace Drains

/-- The stack and its depth stay as they are. -/
theorem of_eq (hstack : c.stack = b.stack) (hdepth : c.depth = b.depth) (hmaxDepth : c.maxDepth = b.maxDepth)
    (hmaxLocals : b.maxLocals ≤ c.maxLocals) : b.Drains c where
  stack := hstack ▸ List.suffix_refl b.stack
  maxDepth := hmaxDepth
  maxLocals := hmaxLocals
  balanced hb := by
    unfold Balanced
    rw [hdepth, hstack]
    exact hb

/-- A buffer is what becomes of it when nothing happens. -/
theorem refl (b : CodeBuffer) : b.Drains b :=
  of_eq rfl rfl rfl (UInt16.le_refl _)

/-- When nothing is pushed twice over, nothing is pushed. -/
theorem trans (h : b.Drains c) (h' : c.Drains d) : b.Drains d where
  stack := h'.stack.trans h.stack
  maxDepth := h'.maxDepth.trans h.maxDepth
  maxLocals := UInt16.le_trans h.maxLocals h'.maxLocals
  balanced hb := h'.balanced (h.balanced hb)

end Drains

/-- Instructions that are written push nothing by themselves. -/
theorem Writes.drains {is : List Instruction} (h : b.Writes c is) : b.Drains c :=
  .of_eq h.stack h.depth h.maxDepth (UInt16.le_of_eq h.maxLocals.symm)

/-- What popping leaves is what is left when nothing is pushed. -/
theorem Dropped.drains {count : Nat} (h : Dropped count b c) : b.Drains c where
  stack := by
    rw [h.eq]
    exact List.drop_suffix count b.stack
  maxDepth := by rw [h.eq]
  maxLocals := by
    rw [h.eq]
    exact UInt16.le_refl _
  balanced := h.balanced

/-- `c` is what an operation makes of `b`: nothing is pushed, or one entry in the end. -/
inductive Advances (b : CodeBuffer) : CodeBuffer → Prop where
  | drain {c : CodeBuffer} (h : b.Drains c) : Advances b c
  | push {c : CodeBuffer} (h : b.Drains c) (entry : StackType) : Advances b (c.push entry)

/-- Entries may be lost before one is pushed in the end. -/
theorem Drains.advances (h : b.Drains c) (h' : c.Advances d) : b.Advances d := by
  cases h' with
  | drain hd => exact .drain (h.trans hd)
  | push hd entry => exact .push (h.trans hd) entry

/-- A type pushes the one entry in the end, if it has values. -/
theorem Drains.advances_pushType (h : b.Drains c) (type : JType) : b.Advances (c.pushType type) := by
  unfold pushType
  cases StackType.ofType? type with
  | none => exact .drain h
  | some entry => exact .push h entry

/-! ## Steps that push nothing -/

/-- However the step ends, nothing is pushed. -/
def Draining (step : Step Unit) (b : CodeBuffer) : Prop :=
  Ensures step b (fun _ c => b.Drains c) fun _ c => b.Drains c

/-- A change that pushes nothing is a step that pushes nothing. -/
theorem draining_modify {f : CodeBuffer → CodeBuffer} (h : b.Drains (f b)) : Draining (modify f) b :=
  h

/-- A byte pushes nothing. -/
theorem drains_emitByte (b : CodeBuffer) (byte : UInt8) : b.Drains (b.emitByte byte) :=
  .of_eq rfl rfl rfl (UInt16.le_refl _)

/-- A word pushes nothing. -/
theorem drains_emitWord (b : CodeBuffer) (word : UInt16) : b.Drains (b.emitWord word) :=
  .of_eq rfl rfl rfl (UInt16.le_refl _)

/-- An instruction pushes nothing. -/
theorem drains_emitOp (b : CodeBuffer) (opcode : UInt8) : b.Drains (b.emitOp opcode) :=
  .of_eq rfl rfl rfl (UInt16.le_refl _)

/-- An instruction with one byte behind it pushes nothing. -/
theorem drains_emitOp1 (b : CodeBuffer) (opcode operand : UInt8) : b.Drains (b.emitOp1 opcode operand) :=
  (drains_emitOp b opcode).trans (drains_emitByte _ operand)

/-- An instruction with one word behind it pushes nothing. -/
theorem drains_emitOp2 (b : CodeBuffer) (opcode : UInt8) (operand : UInt16) : b.Drains (b.emitOp2 opcode operand) :=
  (drains_emitOp b opcode).trans (drains_emitWord _ operand)

/-- Popping pushes nothing, also when it runs out of entries. -/
theorem draining_pop (count : Nat) (b : CodeBuffer) : Draining (pop count) b :=
  (dropped_pop count b).mono (fun _ _ h => h.2.drains) (fun _ _ h => h.2.drains)

/-! ## Steps that push one entry in the end -/

/-- However the step ends, nothing is pushed, or one entry in the end. -/
def Advancing (step : Step Unit) (b : CodeBuffer) : Prop :=
  Ensures step b (fun _ c => b.Advances c) fun _ c => b.Advances c

/-- What pushes nothing pushes one entry at the most. -/
theorem Draining.advancing {step : Step Unit} (h : Draining step b) : Advancing step b :=
  Ensures.mono h (fun _ _ hc => .drain hc) (fun _ _ hc => .drain hc)

/-- What pushes an entry in the end may follow on a step that pushes nothing. -/
theorem Draining.bind {x : Step Unit} {y : PUnit → Step Unit} (hx : Draining x b) (hy : ∀ c, Advancing (y ⟨⟩) c) :
    Advancing (x >>= y) b := by
  unfold Advancing
  rw [ensures_bind]
  refine Ensures.mono hx ?_ (fun _ _ hc => .drain hc)
  intro _ c hc
  exact (hy c).mono (fun _ _ hd => hc.advances hd) (fun _ _ hd => hc.advances hd)

/-- A load pushes the entry of its type in the end, or does nothing. -/
theorem advancing_load (type : JType) (slot : Nat) (b : CodeBuffer) : Advancing (load type slot) b := by
  refine (ensures_load type slot b).mono ?_ ?_
  · intro _ _ hview
    obtain ⟨k, entry, c, -, -, -, hc, rfl⟩ := hview
    exact .push hc.drains entry
  · intro _ _ hview
    rw [hview.2]
    exact .drain (.refl b)

/-- The load of a constant pushes its entry in the end. -/
theorem advancing_loadConstant (index : UInt16) (entry : StackType) (b : CodeBuffer) : Advancing (modify (·.loadConstant index entry)) b := by
  obtain ⟨c, hc, hload⟩ := loadConstant_eq_push b index entry
  unfold Advancing
  rw [ensures_modify, hload]
  exact .push hc.drains entry

/-- A call pushes its result in the end, unless it runs out of entries before. -/
theorem advancing_invoke (opcode : UInt8) (index : UInt16) (params : List JType) (result : JType) (b : CodeBuffer) :
    Advancing (invoke opcode index params result) b := by
  have hrest : ∀ count c, Advancing (do pop count; modify (·.pushType result)) c :=
    fun count c => (draining_pop count c).bind fun d => (Drains.refl d).advances_pushType result
  refine (draining_modify (drains_emitOp2 b opcode index)).bind fun c => ?_
  dsimp only
  split
  · refine Draining.bind (draining_modify ?_) (hrest _)
    exact (drains_emitByte c _).trans (drains_emitByte _ 0)
  · exact hrest _ c

/-- A dynamic call pushes its result in the end, unless it runs out of entries before. -/
theorem advancing_invokeDynamic (index : UInt16) (captured : Nat) (result : StackType) (b : CodeBuffer) :
    Advancing (invokeDynamic index captured result) b := by
  refine Draining.bind (draining_modify ?_) fun c => (draining_pop captured c).bind fun d => .push (.refl d) result
  exact (drains_emitOp2 b Opcode.invokedynamic index).trans (drains_emitWord _ 0)

/-- Making room for local slots pushes nothing. -/
theorem advancing_ensureLocals (slots : Nat) (b : CodeBuffer) : Advancing (ensureLocals slots) b := by
  rw [ensureLocals]
  split
  · have hmore : b.maxLocals ≤ max b.maxLocals slots.toUInt16 := by
      rw [UInt16.le_iff_toNat_le, toNat_max16]
      exact Nat.le_max_left _ _
    exact (draining_modify (.of_eq rfl rfl rfl hmore)).advancing
  · exact .drain (.refl b)

/-- Every operation pushes one entry at the most, in the end, whether it fails or not. -/
theorem advancing_operation (b : CodeBuffer) (op : Operation) : Advancing op.step b := by
  cases op with
  | write w =>
    cases w with
    | op opcode => exact (draining_modify (drains_emitOp b opcode)).advancing
    | op1 opcode operand => exact (draining_modify (drains_emitOp1 b opcode operand)).advancing
    | op2 opcode operand => exact (draining_modify (drains_emitOp2 b opcode operand)).advancing
    | load type slot => exact advancing_load type slot b
    | loadConstant index entry => exact advancing_loadConstant index entry b
    | invoke opcode index params result => exact advancing_invoke opcode index params result b
    | invokeDynamic index captured result => exact advancing_invokeDynamic index captured result b
    | leave type => exact (draining_modify (drains_emitOp b _)).bind fun c => (draining_pop _ c).advancing
  | byte value => exact (draining_modify (drains_emitByte b value)).advancing
  | word value => exact (draining_modify (drains_emitWord b value)).advancing
  | push entry => exact .push (.refl b) entry
  | pop count => exact (draining_pop count b).advancing
  | ensureLocals slots => exact advancing_ensureLocals slots b

/-! ## Runs -/

/-- An entry on top of a stack that fits into 16 bits with it adds its slots to the depth. -/
theorem Balanced.push (hb : b.Balanced) {entry : StackType} (hroom : StackType.slots (entry :: b.stack) ≤ 65535) :
    (b.push entry).Balanced := by
  have hsum : entry.width.toNat + b.depth.toNat ≤ 65535 := by
    rw [hb]
    exact hroom
  have hdepth : (b.depth + entry.width).toNat = entry.width.toNat + b.depth.toNat := by
    rw [UInt16.toNat_add, Nat.add_comm]
    exact Nat.mod_eq_of_lt (Nat.lt_succ_of_le hsum)
  exact hdepth.trans (congrArg (entry.width.toNat + ·) hb)

namespace Advances

/-- Local slots become no fewer. -/
theorem maxLocals (h : b.Advances c) : b.maxLocals ≤ c.maxLocals := by
  cases h with
  | drain h => exact h.maxLocals
  | push h entry => exact h.maxLocals

/-- A depth that is in step stays so, as long as the stack fits into 16 bits. -/
theorem balanced (h : b.Advances c) (hb : b.Balanced) (hroom : StackType.slots c.stack ≤ 65535) : c.Balanced := by
  cases h with
  | drain h => exact h.balanced hb
  | push h entry => exact (h.balanced hb).push hroom

/-- The largest depth is counted on with the depth behind the operation. -/
theorem maxDepth (h : b.Advances c) (hb : b.Balanced) (hdepth : b.depth.toNat ≤ b.maxDepth.toNat) :
    c.maxDepth.toNat = max c.depth.toNat b.maxDepth.toNat := by
  cases h with
  | drain h =>
    have hless : c.depth.toNat ≤ b.depth.toNat := by
      rw [h.balanced hb, hb]
      exact StackType.slots_le_of_suffix h.stack
    rw [h.maxDepth, Nat.max_eq_right (Nat.le_trans hless hdepth)]
  | @push d h entry =>
    change (max d.maxDepth (d.depth + entry.width)).toNat = max (d.depth + entry.width).toNat b.maxDepth.toNat
    rw [toNat_max16, h.maxDepth, Nat.max_comm]

end Advances

/-- Each further operation pushes one entry at the most. -/
theorem advances_operated_concat (b : CodeBuffer) (ops : List Operation) (op : Operation) :
    (b.operated ops).Advances (b.operated (ops ++ [op])) := by
  rw [operated_concat]
  exact (advancing_operation _ op).snd_runStep

/-- Along operations the local slots become no fewer. -/
theorem maxLocals_le_operated (b : CodeBuffer) (ops : List Operation) : b.maxLocals ≤ (b.operated ops).maxLocals := by
  induction ops using List.reverseRecOn with
  | nil => exact UInt16.le_refl _
  | append_singleton ops op ih => exact UInt16.le_trans ih (advances_operated_concat b ops op).maxLocals

/-- The depths of a buffer along operations: at the start, and behind each of them. -/
def depths (b : CodeBuffer) (ops : List Operation) : Set Nat :=
  {d | ∃ first, first <+: ops ∧ (b.operated first).depth.toNat = d}

/-- One more operation adds one depth. -/
theorem depths_concat (b : CodeBuffer) (ops : List Operation) (op : Operation) :
    b.depths (ops ++ [op]) = insert (b.operated (ops ++ [op])).depth.toNat (b.depths ops) := by
  ext d
  simp only [depths, Set.mem_ofPred_eq, Set.mem_insert_iff, List.prefix_concat_iff, or_and_right, exists_or, exists_eq_left, eq_comm]

/-- Along operations from an empty buffer the depth stays in step, and the maximum is the largest depth there was. -/
theorem balanced_operated {maxLocals : UInt16} {tracing : Bool} (ops : List Operation)
    (hroom : ∀ first, first <+: ops → StackType.slots ((create maxLocals tracing).operated first).stack ≤ 65535) :
    ((create maxLocals tracing).operated ops).Balanced ∧
      IsGreatest ((create maxLocals tracing).depths ops) ((create maxLocals tracing).operated ops).maxDepth.toNat := by
  induction ops using List.reverseRecOn with
  | nil =>
    refine ⟨rfl, ⟨[], List.prefix_refl [], rfl⟩, ?_⟩
    rintro d ⟨first, hfirst, rfl⟩
    rw [List.prefix_nil.mp hfirst]
    exact Nat.le_refl 0
  | append_singleton ops op ih =>
    obtain ⟨hbalanced, hgreatest⟩ := ih fun first hfirst => hroom first (hfirst.trans (List.prefix_append ops [op]))
    have hstep := advances_operated_concat (create maxLocals tracing) ops op
    have hdepth := hgreatest.2 ⟨ops, List.prefix_refl ops, rfl⟩
    refine ⟨hstep.balanced hbalanced (hroom _ (List.prefix_refl _)), ?_⟩
    rw [depths_concat, hstep.maxDepth hbalanced hdepth]
    exact hgreatest.insert _

/-- What popping takes off a depth in step is the slots of the entries that it takes, so the depth never falls below zero. -/
theorem depth_pop (hb : b.Balanced) (count : Nat) :
    (runStep (pop count) b).2.depth.toNat + StackType.slots (b.stack.take count) = b.depth.toNat := by
  have hdropped : Dropped count b (runStep (pop count) b).2 :=
    ((dropped_pop count b).mono (fun _ _ h => h.2) (fun _ _ h => h.2)).snd_runStep
  have hstack : (runStep (pop count) b).2.stack = b.stack.drop count := by rw [hdropped.eq]
  rw [hdropped.balanced hb, hstack, hb, Nat.add_comm, ← StackType.slots_append, List.take_append_drop]

/-- A buffer accounts for the operations that it went through: the depth is that of the tracked entries, so a further pop takes off no more
than there is; the maximum is the largest depth there was; local slots became no fewer; and the bytes of later operations stand behind
those of earlier ones. -/
structure Accounts (start : CodeBuffer) (ops : List Operation) : Prop where
  depth : (start.operated ops).depth.toNat = StackType.slots (start.operated ops).stack
  pop : ∀ count, (start.operated (ops ++ [.pop count])).depth.toNat + StackType.slots ((start.operated ops).stack.take count) =
    (start.operated ops).depth.toNat
  maxDepth : IsGreatest (start.depths ops) (start.operated ops).maxDepth.toNat
  maxLocals : ∀ first, first <+: ops → (start.operated first).maxLocals ≤ (start.operated ops).maxLocals
  bytes : ∀ first rest, first ++ rest = ops →
    (start.operated ops).bytes.toList = (start.operated first).bytes.toList ++ rest.flatMap Operation.code

/-- A buffer accounts for every run of operations, those that fail among them, along which its operand stack fits into 16 bits. -/
theorem accounts_operated {maxLocals : UInt16} {tracing : Bool} (ops : List Operation)
    (hroom : ∀ first, first <+: ops → StackType.slots ((create maxLocals tracing).operated first).stack ≤ 65535) :
    Accounts (create maxLocals tracing) ops := by
  obtain ⟨hbalanced, hgreatest⟩ := balanced_operated ops hroom
  refine ⟨hbalanced, fun count => ?_, hgreatest, ?_, ?_⟩
  · rw [operated_concat]
    exact depth_pop hbalanced count
  · rintro first ⟨rest, rfl⟩
    rw [operated_append]
    exact maxLocals_le_operated _ rest
  · rintro first rest rfl
    rw [operated_append]
    exact toList_operated _ rest

/-- Operations of which four fail: a pop that takes two entries and finds no third, more local slots than can be counted, a load of nothing,
and a call without its receiver. -/
def sampleOperations : List Operation :=
  [.push .long, .write (.load .object 4), .pop 3, .ensureLocals 70000, .ensureLocals 5, .write (.load .void 0),
    .write (.loadConstant 300 .int), .write (.invoke Opcode.invokevirtual 7 [.int] .void), .word 0]

theorem accounts_operated_sample :
    (∀ first, first <+: sampleOperations → StackType.slots ((create 2 false).operated first).stack ≤ 65535) ∧
      Accounts (create 2 false) sampleOperations := by
  have hinits : ∀ first ∈ sampleOperations.inits, StackType.slots ((create 2 false).operated first).stack ≤ 65535 := by decide
  have hroom : ∀ first, first <+: sampleOperations → StackType.slots ((create 2 false).operated first).stack ≤ 65535 :=
    fun first hfirst => hinits first ((List.mem_inits first sampleOperations).mpr hfirst)
  exact ⟨hroom, accounts_operated sampleOperations hroom⟩

end CodeBuffer

end Linkage
