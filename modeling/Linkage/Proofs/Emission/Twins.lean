import Linkage.Proofs.ClassFile.Twins
import Linkage.Proofs.Emission.Room
import Linkage.Proofs.Resolution.Agreement

/-!
# Writing the same code twice

The same code written from two emissions ends alike, whatever is in the two pools and on the two stacks: code does not read the pool, and
pops what it has pushed itself. Only the indices of constants differ, and where the pool has no room left nothing is said. Of the code of
factories, which is stored as a body of its own, both runs write the same number of bytes.
-/

namespace Linkage

open CodeBuffer (Twins)

namespace Emit

variable {α : Type} {sized : Bool} {n m : Nat}

/-- The two steps end alike, or run out of room, from emissions whose buffers are twins with `n` entries, and leave such with `m`. -/
abbrev Paired (sized : Bool) (n m : Nat) (x y : Emit Unit) : Prop :=
  Parallel Fault.IsExhaustion (fun s t => Twins sized n s.code t.code) (fun s t => Twins sized m s.code t.code) x y

/-- Steps on twin buffers that end alike do so in emission. -/
theorem paired_inCode {x y : CodeBuffer.Step Unit} (h : CodeBuffer.Paired sized n m x y) : Paired sized n m (inCode x) (inCode y) :=
  fun s t hst => (h s.code t.code hst).focus (fun _ => False.elim) fun _ _ _ _ hcode => hcode

/-- A change that takes twins to twins does so in emission. -/
theorem paired_write {f g : CodeBuffer → CodeBuffer} (h : ∀ b c, Twins sized n b c → Twins sized m (f b) (g c)) :
    Paired sized n m (write f) (write g) :=
  paired_inCode (.modify h)

/-- The pool does not matter to what follows, but for its indices. -/
theorem paired_inPool {step : Pool.Step α} {f g : α → Emit Unit} (h : ∀ i j, Paired sized n m (f i) (g j)) :
    Paired sized n m (inPool step >>= f) (inPool step >>= g) := by
  intro s t hst
  have hpool : Alike (fun _ => True) step s.pool step t.pool fun _ _ _ _ => True := by
    unfold Alike
    split <;> simp
  refine Alike.bind (hpool.focus (fun e _ => ?_) fun i p j q _ => hst) fun i s' j t' hst' => h i j s' t' hst'
  cases e
  trivial

/-- An answer that is there already. -/
theorem paired_answer {r : Except Fault α} {f g : α → Emit Unit} (h : ∀ a, r = .ok a → Paired sized n m (f a) (g a)) :
    Paired sized n m (answer r >>= f) (answer r >>= g) := by
  intro s t hst
  cases r with
  | ok a => exact h a rfl s t hst
  | error fault => exact Alike.throw _ fault s t _

/-- A call takes its arguments, and its object unless it is static, and pushes its result. -/
theorem paired_invoke (opcode : UInt8) (kind : MemberKind) (owner name : String) (params : List JType) (result : JType)
    (h : sized = true ∨ params.length + (if opcode = Opcode.invokestatic then 0 else 1) ≤ n) :
    Paired sized n (n - (params.length + if opcode = Opcode.invokestatic then 0 else 1) + if result = .void then 0 else 1)
      (invoke opcode kind owner name params result) (invoke opcode kind owner name params result) :=
  paired_inPool fun i j => paired_inCode (CodeBuffer.paired_invoke opcode i j params result h)

/-! ## Receivers -/

/-- A field pushes one entry in both runs, or fails in both. -/
theorem paired_pushField (owner name : String) (type : JType) :
    Paired sized n (n + 1) (pushField owner name type) (pushField owner name type) := by
  unfold pushField
  split
  · exact paired_write fun _ _ h => h.push _ _
  · exact .throw _ _ _ _

/-- The check of a call passes in both runs or in none. -/
theorem paired_checkCall {owner name : String} {params : List JType} {result : JType} {args : List Expr} {x y : Emit Unit}
    (h : result ≠ .void → args.length = params.length → Paired sized n m x y) :
    Paired sized n m (checkCall owner name params result args >>= fun _ => x) (checkCall owner name params result args >>= fun _ => y) := by
  unfold checkCall
  split
  · exact .throw_bind _ _ _ _ _ _
  · rename_i hresult
    split
    · exact .throw_bind _ _ _ _ _ _
    · rename_i hcount
      exact .seq (.pure _ _) (h hresult (Decidable.not_not.mp hcount))

end Emit

open Emit

/-- A literal pushes one entry in both runs. -/
theorem Literal.paired_emit (value : Literal) (n : Nat) : Paired false n (n + 1) value.emit value.emit := by
  cases value with
  | integer v =>
    unfold Literal.emit
    dsimp only
    split
    · exact paired_write fun _ _ h => (h.emitOp _ _).push _ _
    · split
      · exact paired_write fun _ _ h => ((h.emitOp _ _).emitByte _ _).push _ _
      · split
        · exact paired_write fun _ _ h => ((h.emitOp _ _).emitWord _ _).push _ _
        · exact paired_inPool fun i j => paired_write fun _ _ h => h.loadConstant i j _
  | text s => exact paired_inPool fun i j => paired_write fun _ _ h => h.loadConstant i j _
  | null => exact paired_write fun _ _ h => (h.emitOp _ _).push _ _

mutual

/-- The code of an expression pushes one entry, and ends alike wherever it is written. -/
theorem Expr.paired_emit (x : Expr) (n : Nat) : Paired false n (n + 1) x.emit x.emit := by
  cases x with
  | this type s =>
    rw [Expr.emit]
    exact paired_inCode (CodeBuffer.paired_load type 0)
  | localVar name slot type s =>
    rw [Expr.emit]
    exact paired_inCode (CodeBuffer.paired_load type slot)
  | literal value s =>
    rw [Expr.emit]
    exact value.paired_emit n
  | staticField owner name type s =>
    rw [Expr.emit]
    exact paired_inPool fun i j => .seq (paired_write fun _ _ h => (h.emitOp _ _).emitWord _ _) (paired_pushField owner name type)
  | field target owner name type s =>
    rw [Expr.emit]
    refine paired_inPool fun i j => .seq (target.paired_emit n) (.seq (paired_write fun _ _ h => (h.emitOp _ _).emitWord _ _) ?_)
    exact .seq (paired_inCode (CodeBuffer.paired_pop 1 (.inr (Nat.le_add_left 1 n)))) (paired_pushField owner name type)
  | staticCall owner onInterface name params result args s =>
    rw [Expr.emit]
    refine paired_checkCall fun hresult hcount => .seq (Expr.paired_emitAll args n) ?_
    have hcall : Paired false (n + args.length) _ (invoke Opcode.invokestatic (.ofMethod onInterface) owner name params result)
        (invoke Opcode.invokestatic (.ofMethod onInterface) owner name params result) :=
      paired_invoke _ _ owner name params result (.inr (by rw [if_pos rfl]; omega))
    have hdepth : n + args.length - (params.length + 0) + 1 = n + 1 := by omega
    rw [if_pos rfl, if_neg hresult, hdepth] at hcall
    exact hcall
  | call target owner onInterface name params result args s =>
    rw [Expr.emit]
    refine paired_checkCall fun hresult hcount => .seq (target.paired_emit n) (.seq (Expr.paired_emitAll args (n + 1)) ?_)
    have hopcode : (if onInterface then Opcode.invokeinterface else Opcode.invokevirtual) ≠ Opcode.invokestatic := by
      cases onInterface <;> decide
    have hcall : Paired false (n + 1 + args.length) _
        (invoke (if onInterface then Opcode.invokeinterface else Opcode.invokevirtual) (.ofMethod onInterface) owner name params result)
        (invoke (if onInterface then Opcode.invokeinterface else Opcode.invokevirtual) (.ofMethod onInterface) owner name params result) :=
      paired_invoke _ _ owner name params result (.inr (by rw [if_neg hopcode]; omega))
    have hdepth : n + 1 + args.length - (params.length + 1) + 1 = n + 1 := by omega
    rw [if_neg hopcode, if_neg hresult, hdepth] at hcall
    exact hcall

/-- The code of expressions pushes one entry for each. -/
theorem Expr.paired_emitAll (xs : List Expr) (n : Nat) : Paired false n (n + xs.length) (Expr.emitAll xs) (Expr.emitAll xs) := by
  cases xs with
  | nil =>
    rw [Expr.emitAll]
    exact .pure _ _
  | cons x xs =>
    rw [Expr.emitAll, List.length_cons, Nat.add_comm xs.length 1, ← Nat.add_assoc]
    exact .seq (x.paired_emit n) (Expr.paired_emitAll xs (n + 1))

end

/-! ## Factories -/

namespace Emit

/-- The two steps write code of the same size. As both buffers have the same number of entries, it does not matter how many. -/
abbrev Mirrored (x y : Emit Unit) : Prop :=
  Paired true 0 0 x y

/-- It does not matter how many entries the buffers have behind the steps. -/
theorem Paired.mirrored {m : Nat} {x y : Emit Unit} (h : Paired true 0 m x y) : Mirrored x y :=
  h.mono fun _ _ hst => hst.weaken (Nat.zero_le m)

/-- A change that takes twins of one size to such twins writes the same number of bytes in both runs. -/
theorem mirrored_write {m : Nat} {f g : CodeBuffer → CodeBuffer} (h : ∀ b c, Twins true 0 b c → Twins true m (f b) (g c)) :
    Mirrored (write f) (write g) :=
  (paired_write h).mirrored

/-- Popping writes nothing in both runs. -/
theorem mirrored_pop (count : Nat) : Mirrored (inCode (CodeBuffer.pop count)) (inCode (CodeBuffer.pop count)) :=
  (paired_inCode (CodeBuffer.paired_pop count (.inl rfl))).mirrored

/-- A load writes the same number of bytes in both runs. -/
theorem mirrored_load (type : JType) (slot : Nat) : Mirrored (inCode (CodeBuffer.load type slot)) (inCode (CodeBuffer.load type slot)) :=
  (paired_inCode (CodeBuffer.paired_load type slot)).mirrored

/-- Widening writes the same number of bytes in both runs. -/
theorem mirrored_widening (p q : Primitive) : Mirrored (widening p q) (widening p q) := by
  unfold widening
  split
  · exact .pure _ _
  · split
    · exact .throw _ _ _ _
    · exact .seq (mirrored_write fun _ _ h => h.emitOp _ _) (.seq (mirrored_pop 1) (mirrored_write fun _ _ h => h.pushType (.prim q)))

/-- A call writes the same number of bytes in both runs, whatever the index of its method. -/
theorem mirrored_invoke (opcode : UInt8) (kind : MemberKind) (owner name : String) (params : List JType) (result : JType) :
    Mirrored (invoke opcode kind owner name params result) (invoke opcode kind owner name params result) :=
  (paired_invoke opcode kind owner name params result (.inl rfl)).mirrored

/-- A conversion writes the same number of bytes in both runs. -/
theorem mirrored_convert (source target : JType) : Mirrored (convert source target) (convert source target) := by
  unfold convert
  split
  · exact .pure _ _
  · split
    · exact mirrored_widening _ _
    · exact mirrored_invoke _ _ _ _ _ _
    · exact mirrored_invoke _ _ _ _ _ _
    · split
      · exact .throw _ _ _ _
      · exact .seq (mirrored_invoke _ _ _ _ _ _) (mirrored_widening _ _)
    · exact .throw _ _ _ _
    · exact .pure _ _

end Emit

namespace Factory

/-- The sizes of an array are written with the same number of bytes in both runs. -/
theorem mirrored_pushSizes (span : Span) (slot : Nat) (ps : List Param) : Mirrored (pushSizes span slot ps) (pushSizes span slot ps) := by
  induction ps generalizing slot with
  | nil => exact .pure _ _
  | cons p ps ih =>
    unfold pushSizes
    split
    · exact .throw_bind _ _ _ _ _ _
    · exact .seq (mirrored_load _ _) (.seq (mirrored_convert _ _) (ih _))

/-- An array is allocated with the same number of bytes in both runs. -/
theorem mirrored_allocate (type : JType) (count : Nat) : Mirrored (allocate type count) (allocate type count) := by
  have hrest : Mirrored (do inCode (CodeBuffer.pop count); write (·.push (.object type.constantName)))
      (do inCode (CodeBuffer.pop count); write (·.push (.object type.constantName))) :=
    .seq (mirrored_pop count) (mirrored_write fun _ _ h => h.push _ _)
  unfold allocate
  split
  · exact .seq (mirrored_write fun _ _ h => (h.emitOp _ _).emitByte _ _) hrest
  · exact paired_inPool fun i j => .seq (mirrored_write fun _ _ h => (h.emitOp _ _).emitWord _ _) hrest
  · exact paired_inPool fun i j => .seq (mirrored_write fun _ _ h => ((h.emitOp _ _).emitWord _ _).emitByte _ _) hrest

/-- Arguments are written with the same number of bytes in both runs. -/
theorem mirrored_pushArguments (slot : Nat) (args params : List Param) :
    Mirrored (pushArguments slot args params) (pushArguments slot args params) := by
  induction args generalizing slot params with
  | nil => exact .pure _ _
  | cons arg args ih =>
    cases params with
    | nil => exact .pure _ _
    | cons param params => exact .seq (mirrored_load _ _) (.seq (mirrored_convert _ _) (ih _ _))

/-- An instance is constructed with the same number of bytes in both runs. -/
theorem mirrored_construct (className : String) (constructor : MethodDecl) (exact : List Param) :
    Mirrored (construct className constructor exact) (construct className constructor exact) := by
  have hcall : ∀ i j, Mirrored (inCode (CodeBuffer.invoke Opcode.invokespecial i constructor.paramTypes .void))
      (inCode (CodeBuffer.invoke Opcode.invokespecial j constructor.paramTypes .void)) := fun i j =>
    (paired_inCode (CodeBuffer.paired_invoke _ i j _ _ (.inl rfl))).mirrored
  unfold construct
  refine paired_inPool fun i j => .seq (mirrored_write fun _ _ h => ((h.emitOp _ _).emitWord _ _).push _ _) ?_
  refine .seq (mirrored_write fun _ _ h => (h.emitOp _ _).push _ _) ?_
  exact .seq (mirrored_pushArguments _ _ _) (paired_inPool hcall)

/-- The bodies of a factory for the same target and parameters, where the known types agree. -/
theorem mirrored_body {t u : ClassTable} (h : t.Agrees u) (accessing : String) (type : JType) (exact : List Param) (span : Span) :
    Mirrored (body ⟨t, .language, accessing⟩ type exact span) (body ⟨u, .language, accessing⟩ type exact span) := by
  have hmake : Mirrored (make ⟨t, .language, accessing⟩ type exact span) (make ⟨u, .language, accessing⟩ type exact span) := by
    cases type with
    | array c => exact paired_answer fun _ _ => .seq (mirrored_pushSizes _ _ _) (mirrored_allocate _ _)
    | named k className =>
      simp only [make, h.constructorOf, h.sameHierarchy.canonicalName]
      exact paired_answer fun constructor _ => mirrored_construct _ constructor exact
    | prim p => exact .throw _ _ _ _
    | void => exact .throw _ _ _ _
  exact .seq (paired_inCode (CodeBuffer.paired_ensureLocals _))
    (.seq hmake (paired_inCode ((CodeBuffer.paired_emitReturn type).mono fun _ _ hbc => hbc.weaken (Nat.zero_le _))))

end Factory

end Linkage
