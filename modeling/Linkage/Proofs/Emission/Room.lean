import Linkage.Emission.Receiver
import Linkage.Lowering.Factory
import Linkage.Proofs.Pool.Room

/-!
# How much room code takes

How many constants the code of a receiver can add is read off the expression (`Expr.demand`), and for the body of a factory off the number
of its parameters. Where the pool has room for that many, writing the code never runs out of room.
-/

namespace Linkage

/-- The class file has no room for another constant or bootstrap method. -/
def FileFault.IsExhaustion : FileFault → Prop
  | .pool .full => True
  | .tooManyBootstraps => True
  | _ => False

/-- A table of the class file has no room left. -/
def Fault.IsExhaustion : Fault → Prop
  | .file fault => fault.IsExhaustion
  | _ => False

namespace Emit

variable {α β : Type} {j k : Nat}

/-- Where the pool has room for `k` entries the step does not run out of room, and adds no more than that, also when it fails. -/
def Takes (k : Nat) (step : Emit α) : Prop :=
  ∀ e : Emission, e.pool.entries.size + k ≤ Pool.capacity → Ensures step e (fun _ t => e.pool.Within k t.pool)
    fun fault t => ¬ fault.IsExhaustion ∧ e.pool.Within k t.pool

/-- Room for more entries is enough, too. -/
theorem Takes.mono {step : Emit α} (h : Takes j step) (hjk : j ≤ k) : Takes k step := by
  intro e hroom
  exact (h e (by omega)).mono (fun _ _ ht => ht.mono hjk) (fun _ _ ht => ⟨ht.1, ht.2.mono hjk⟩)

/-- Two steps of emission take what they take together. -/
theorem Takes.bind {x : Emit α} {f : α → Emit β} (hx : Takes j x) (hf : ∀ a, Takes k (f a)) : Takes (j + k) (x >>= f) := by
  intro e hroom
  rw [ensures_bind]
  refine (hx e (by omega)).mono ?_ (fun _ _ h => ⟨h.1, h.2.mono (Nat.le_add_right j k)⟩)
  intro a t ht
  have hsize := ht.2
  exact (hf a t (by omega)).mono (fun _ _ h => ht.trans h) (fun _ _ h => ⟨h.1, ht.trans h.2⟩)

/-- An answer takes no entries. -/
theorem takes_pure (a : α) : Takes 0 (pure a) :=
  fun e _ => Pool.Within.refl e.pool

/-- A step that fails for another reason than want of room takes no entries. -/
theorem takes_throw {fault : Fault} (h : ¬ fault.IsExhaustion) : Takes k (throw fault : Emit α) :=
  fun e _ => ⟨h, (Pool.Within.refl e.pool).mono (Nat.zero_le k)⟩

/-- An answer or fault that is there already takes no entries, unless it is about want of room. -/
theorem takes_answer {r : Except Fault α} (h : ∀ fault, r = .error fault → ¬ fault.IsExhaustion) : Takes 0 (answer r) := by
  cases r with
  | ok a => exact takes_pure a
  | error fault => exact takes_throw (h fault rfl)

/-- Steps on the buffer take no room. -/
theorem takes_inCode (step : CodeBuffer.Step α) : Takes 0 (inCode step) := by
  intro e _
  rw [inCode, ensures_focus]
  exact Ensures.intro (fun _ _ _ => .refl e.pool) (fun _ _ _ => ⟨id, .refl e.pool⟩)

/-- The buffer is changed without the pool. -/
theorem takes_write (f : CodeBuffer → CodeBuffer) : Takes 0 (write f) :=
  takes_inCode _

/-- A step on the pool takes there what it takes in emission. -/
theorem takes_inPool {step : Pool.Step α} (h : Pool.Takes k step) : Takes k (inPool step) := by
  intro e hroom
  rw [inPool, ensures_focus]
  exact (h e.pool hroom).mono (fun _ _ ht => ht) (fun _ _ hf => hf.elim)

/-- A call takes the entries of its member. -/
theorem takes_invoke (opcode : UInt8) (kind : MemberKind) (owner name : String) (params : List JType) (result : JType) :
    Takes 6 (invoke opcode kind owner name params result) :=
  (takes_inPool (Pool.takes_addMember kind owner name _)).bind fun _ => takes_inCode _

end Emit

open Emit

/-! ## Receivers -/

/-- The constants that the code of a literal can add. -/
def Literal.demand : Literal → Nat
  | integer _ => 1
  | text _ => 2
  | null => 0

mutual

/-- The constants that the code of an expression can add: those of its parts, and six for every field and call. -/
def Expr.demand : Expr → Nat
  | .this _ _ => 0
  | .localVar _ _ _ _ => 0
  | .literal value _ => value.demand
  | .staticField _ _ _ _ => 6
  | .field target _ _ _ _ => 6 + target.demand
  | .staticCall _ _ _ _ _ args _ => Expr.demandAll args + 6
  | .call target _ _ _ _ _ args _ => target.demand + (Expr.demandAll args + 6)

/-- The constants that the code of expressions can add. -/
def Expr.demandAll : List Expr → Nat
  | [] => 0
  | e :: es => e.demand + Expr.demandAll es

end

/-- A literal takes the entries that it asks for. -/
theorem Literal.takes_emit (value : Literal) : Takes value.demand value.emit := by
  cases value with
  | integer v =>
    unfold Literal.emit
    dsimp only
    have hwrite : ∀ f, Takes 1 (write f) := fun f => (takes_write f).mono (Nat.zero_le 1)
    split
    · exact hwrite _
    · split
      · exact hwrite _
      · split
        · exact hwrite _
        · exact (takes_inPool (Pool.takes_add _)).bind fun _ => takes_write _
  | text s => exact (takes_inPool (Pool.takes_addString s)).bind fun _ => takes_write _
  | null => exact takes_write _

/-- A field's value is pushed without the pool. -/
theorem Emit.takes_pushField (owner name : String) (type : JType) : Takes 0 (pushField owner name type) := by
  unfold pushField
  split
  · exact takes_write _
  · exact takes_throw id

/-- The check of a call takes no entries. -/
theorem Emit.takes_checkCall (owner name : String) (params : List JType) (result : JType) (args : List Expr) :
    Takes 0 (checkCall owner name params result args) := by
  unfold checkCall
  split
  · exact takes_throw id
  · split
    · exact takes_throw id
    · exact takes_pure _

mutual

/-- The code of an expression adds no more constants than its demand. -/
theorem Expr.takes_emit (x : Expr) : Takes x.demand x.emit := by
  cases x with
  | this type s =>
    rw [Expr.emit, Expr.demand]
    exact takes_inCode _
  | localVar name slot type s =>
    rw [Expr.emit, Expr.demand]
    exact takes_inCode _
  | literal value s =>
    rw [Expr.emit, Expr.demand]
    exact value.takes_emit
  | staticField owner name type s =>
    rw [Expr.emit, Expr.demand]
    exact (takes_inPool (Pool.takes_addMember .field owner name _)).bind fun _ =>
      (takes_write _).bind fun _ => takes_pushField owner name type
  | field target owner name type s =>
    rw [Expr.emit, Expr.demand]
    exact (takes_inPool (Pool.takes_addMember .field owner name _)).bind fun _ => target.takes_emit.bind fun _ =>
      (takes_write _).bind fun _ => (takes_inCode _).bind fun _ => takes_pushField owner name type
  | staticCall owner onInterface name params result args s =>
    rw [Expr.emit, Expr.demand]
    refine ((takes_checkCall owner name params result args).bind fun _ => (Expr.takes_emitAll args).bind fun _ =>
      takes_invoke _ _ owner name params result).mono ?_
    omega
  | call target owner onInterface name params result args s =>
    rw [Expr.emit, Expr.demand]
    refine ((takes_checkCall owner name params result args).bind fun _ => target.takes_emit.bind fun _ =>
      (Expr.takes_emitAll args).bind fun _ => takes_invoke _ _ owner name params result).mono ?_
    omega

/-- Expressions in a row take what they ask for together. -/
theorem Expr.takes_emitAll (xs : List Expr) : Takes (Expr.demandAll xs) (Expr.emitAll xs) := by
  cases xs with
  | nil =>
    rw [Expr.emitAll, Expr.demandAll]
    exact takes_pure _
  | cons x xs =>
    rw [Expr.emitAll, Expr.demandAll]
    exact x.takes_emit.bind fun _ => Expr.takes_emitAll xs

end

/-! ## Factories -/

namespace Emit

/-- Widening takes no entries. -/
theorem takes_widening (p q : Primitive) : Takes 0 (widening p q) := by
  unfold widening
  split
  · exact takes_pure _
  · split
    · exact takes_throw id
    · exact (takes_write _).bind fun _ => (takes_inCode _).bind fun _ => takes_write _

/-- A conversion calls one method at the most, to box or to unbox. -/
theorem takes_convert (source target : JType) : Takes 6 (convert source target) := by
  have hpure : Takes 6 (pure () : Emit Unit) := (takes_pure ()).mono (Nat.zero_le 6)
  unfold convert
  split
  · exact hpure
  · split
    · exact (takes_widening _ _).mono (Nat.zero_le 6)
    · exact takes_invoke _ _ _ _ _ _
    · exact takes_invoke _ _ _ _ _ _
    · split
      · exact takes_throw id
      · exact (takes_invoke _ _ _ _ _ _).bind fun _ => takes_widening _ _
    · exact takes_throw id
    · exact hpure

end Emit

namespace Factory

/-- Every size may be unboxed, and so takes the entries of one member. -/
theorem takes_pushSizes (span : Span) (slot : Nat) (ps : List Param) : Takes (6 * ps.length) (pushSizes span slot ps) := by
  induction ps generalizing slot with
  | nil => exact takes_pure _
  | cons p ps ih =>
    have hrest : Takes (6 * (p :: ps).length) (do
        inCode (CodeBuffer.load p.type slot)
        convert p.type .int
        pushSizes span (slot + p.type.width) ps) := by
      refine ((takes_inCode _).bind fun _ => (takes_convert _ _).bind fun _ => ih _).mono ?_
      rw [List.length_cons]
      omega
    unfold pushSizes
    split
    · exact (takes_throw (k := 0) id).bind (fun _ => hrest) |>.mono (Nat.le_of_eq (Nat.zero_add _))
    · exact hrest

/-- An array takes the entries of its element class. -/
theorem takes_allocate (type : JType) (count : Nat) : Takes 2 (allocate type count) := by
  have hrest : Takes 0 (do inCode (CodeBuffer.pop count); write (·.push (.object type.constantName))) :=
    (takes_inCode _).bind fun _ => takes_write _
  unfold allocate
  split
  · exact ((takes_write _).bind fun _ => hrest).mono (Nat.zero_le 2)
  · exact (takes_inPool (Pool.takes_addClass _)).bind fun _ => (takes_write _).bind fun _ => hrest
  · exact (takes_inPool (Pool.takes_addClass _)).bind fun _ => (takes_write _).bind fun _ => hrest

/-- Every argument is converted, and so takes the entries of one member. -/
theorem takes_pushArguments (slot : Nat) (args params : List Param) : Takes (6 * args.length) (pushArguments slot args params) := by
  induction args generalizing slot params with
  | nil => exact takes_pure _
  | cons arg args ih =>
    cases params with
    | nil => exact (takes_pure _).mono (Nat.zero_le _)
    | cons param params =>
      refine ((takes_inCode _).bind fun _ => (takes_convert _ _).bind fun _ => ih _ params).mono ?_
      rw [List.length_cons]
      omega

/-- An instance takes the entries of its class and its constructor beside those of its arguments. -/
theorem takes_construct (className : String) (constructor : MethodDecl) (exact : List Param) :
    Takes (6 * exact.length + 8) (construct className constructor exact) := by
  unfold construct
  refine ((takes_inPool (Pool.takes_addClass className)).bind fun _ => (takes_write _).bind fun _ => (takes_write _).bind fun _ =>
    (takes_pushArguments 0 exact constructor.params).bind fun _ =>
      (takes_inPool (Pool.takes_addMember .method className _ _)).bind fun _ => takes_inCode _).mono ?_
  omega

/-- What is wrong with a creation has nothing to do with room. -/
theorem constructorOf_eq_error {s : Scope} {type : JType} {className : String} {exact : List Param} {span : Span} {fault : Fault}
    (h : constructorOf s type className exact span = .error fault) : ¬ fault.IsExhaustion := by
  unfold constructorOf Scope.constructorFor at h
  split at h
  · cases h
    exact id
  · split at h
    · cases h
    · cases h
      exact id

/-- The body of a factory adds six constants for each parameter and eight more. -/
theorem takes_body (s : Scope) (type : JType) (exact : List Param) (span : Span) :
    Takes (6 * exact.length + 8) (body s type exact span) := by
  have hmake : Takes (6 * exact.length + 8) (make s type exact span) := by
    cases type with
    | array c =>
      refine ((takes_answer ?_).bind fun _ => (takes_pushSizes span 0 exact).bind fun _ => takes_allocate _ _).mono ?_
      · intro fault h
        obtain ⟨what, -, rfl⟩ := mapError_eq_error.mp h
        exact id
      · omega
    | named k className =>
      refine ((takes_answer fun fault => constructorOf_eq_error).bind fun constructor => takes_construct _ constructor exact).mono ?_
      omega
    | prim p => exact takes_throw id
    | void => exact takes_throw id
  refine ((takes_inCode _).bind fun _ => hmake.bind fun _ => takes_inCode _).mono ?_
  omega

end Factory

end Linkage
