import Linkage.Proofs.Emission.ConversionCode
import Linkage.Proofs.Emission.Factory
import Linkage.Proofs.Lowering.Factory
import Linkage.Proofs.Resolution.Constructors

/-!
# What can be made

A factory makes an array when its parameters can be sizes of it, and an object when some constructor applies to them and each of them starts
at a local slot that a load can name (`Factory.Makeable`). The body of a factory is written in just these cases; in all others the fault
says what is wrong with the creation (`Factory.Rejection`), and never that stack, conversion and check disagree.
-/

namespace Linkage

open Emit

/-! ## What steps add -/

/-- At most `k` constants and `n` instructions were added. -/
structure Emission.Within (k n : Nat) (e t : Emission) : Prop where
  pool : e.pool.Within k t.pool
  code : ∃ is, e.code.Appends t.code is ∧ is.length ≤ n

namespace Emission.Within

variable {j k m n : Nat} {e t u : Emission}

theorem refl (e : Emission) : Within 0 0 e e :=
  ⟨.refl e.pool, [], .refl e.code, Nat.le_refl 0⟩

theorem trans (h : Within j m e t) (h' : Within k n t u) : Within (j + k) (m + n) e u := by
  obtain ⟨is, his, hm⟩ := h.code
  obtain ⟨js, hjs, hn⟩ := h'.code
  refine ⟨h.pool.trans h'.pool, is ++ js, his.trans hjs, ?_⟩
  rw [List.length_append]
  exact Nat.add_le_add hm hn

/-- More may have been allowed. -/
theorem mono (h : Within j m e t) (hjk : j ≤ k) (hmn : m ≤ n) : Within k n e t := by
  obtain ⟨is, his, hm⟩ := h.code
  exact ⟨h.pool.mono hjk, is, his, Nat.le_trans hm hmn⟩

/-- One instruction was written, and what else was done to the buffer has left its bytes alone. -/
theorem of_writes {i : Instruction} {c : CodeBuffer} (hc : e.code.Writes c [i]) (hpool : e.pool.Within k t.pool)
    (hbytes : t.code.bytes = c.bytes) : Within k 1 e t :=
  ⟨hpool, [i], hc.appends.of_bytes hbytes, Nat.le_refl 1⟩

/-- The bytes that were added are few. -/
theorem size_le (h : Within k n e t) : t.code.bytes.size ≤ e.code.bytes.size + 5 * n := by
  obtain ⟨is, his, hn⟩ := h.code
  exact Nat.le_trans his.size_le (by omega)

end Emission.Within

/-- A number of values were pushed, each with six constants and three instructions at most. -/
structure Emission.Pushed (count : Nat) (e t : Emission) : Prop where
  within : e.Within (6 * count) (3 * count) t
  stack : ∃ above, above.length = count ∧ t.code.stack = above ++ e.code.stack

namespace Emission.Pushed

variable {m n : Nat} {e t u : Emission}

theorem refl (e : Emission) : Pushed 0 e e :=
  ⟨.refl e, [], rfl, rfl⟩

theorem trans (h : Pushed m e t) (h' : Pushed n t u) : Pushed (n + m) e u := by
  obtain ⟨above, habove, ht⟩ := h.stack
  obtain ⟨higher, hhigher, hu⟩ := h'.stack
  refine ⟨(h.within.trans h'.within).mono (by omega) (by omega), higher ++ above, ?_, ?_⟩
  · rw [List.length_append, hhigher, habove]
  · rw [hu, ht, List.append_assoc]

/-- As many values are on the stack as were pushed, and what was there before. -/
theorem length_stack (h : Pushed n e t) : t.code.stack.length = n + e.code.stack.length := by
  obtain ⟨above, habove, ht⟩ := h.stack
  rw [ht, List.length_append, habove]

/-- Below the values that were pushed the stack is as it was. -/
theorem drop_stack (h : Pushed n e t) : t.code.stack.drop n = e.code.stack := by
  obtain ⟨above, rfl, ht⟩ := h.stack
  rw [ht, List.drop_left]

end Emission.Pushed

/-- Primitive types are widened in one instruction at most. -/
theorem Widens.length_le {p q : Primitive} {is : List Instruction} (h : Widens p q is) : is.length ≤ 1 := by
  cases h with
  | alike _ => exact Nat.zero_le 1
  | convert _ _ => exact Nat.le_refl 1

/-- A conversion is two instructions at most. -/
theorem ConversionCode.length_le {pool : Pool} {source target : JType} {is : List Instruction}
    (h : ConversionCode pool source target is) : is.length ≤ 2 := by
  cases h with
  | widening h => exact Nat.le_trans h.length_le (by decide)
  | boxing _ _ => exact Nat.le_succ 1
  | unboxing _ h => exact Nat.succ_le_succ h.length_le
  | reference _ _ => exact Nat.zero_le 2

/-- A conversion stays within six constants and two instructions. -/
theorem Emission.Converted.within {source target : JType} {rest : List StackType} {e t : Emission}
    (h : e.Converted source target rest t) : e.Within 6 2 t := by
  obtain ⟨is, hcode, his⟩ := h.code
  exact ⟨h.pool, is, hcode, his.length_le⟩

/-- A value takes one slot or two. -/
theorem JType.width_bounds {type : JType} (h : type ≠ .void) : 1 ≤ type.width ∧ type.width ≤ 2 := by
  cases type with
  | prim p => cases p <;> decide
  | void => exact absurd rfl h
  | named k n => exact ⟨Nat.le_refl 1, Nat.le_succ 1⟩
  | array c => exact ⟨Nat.le_refl 1, Nat.le_succ 1⟩

/-- Where there is room, a step on the pool does not fail. -/
theorem Emit.ensures_inPool_of_takes {α : Type} {k : Nat} {step : Pool.Step α} (hstep : Pool.Takes k step) {e : Emission}
    (hroom : e.pool.entries.size + k ≤ Pool.capacity) :
    Ensures (inPool step) e (fun _ t => ∃ p, e.pool.Within k p ∧ t = { e with pool := p }) (fun _ _ => False) := by
  rw [inPool, ensures_focus]
  exact (hstep e.pool hroom).mono (fun _ p hp => ⟨p, hp, rfl⟩) (fun _ _ h => h)

namespace Factory

variable {α : Type} {e : Emission} {classes : ClassTable} {type target : JType} {types : List JType} {slot : Nat} {span : Span}

/-! ## Parameters -/

/-- Of the parameters whose slots begin at `slot`, each starts where a load can name it. -/
def Loadable (slot : Nat) (types : List JType) : Prop :=
  ∀ i < types.length, slot + CodeBuffer.slots (types.take i) ≤ 255

/-- The first parameter starts in reach, and the others behind it. -/
theorem loadable_cons : Loadable slot (type :: types) ↔ slot ≤ 255 ∧ Loadable (slot + type.width) types := by
  constructor
  · intro h
    refine ⟨h 0 (Nat.zero_lt_succ _), fun i hi => ?_⟩
    have hnext := h (i + 1) (Nat.succ_lt_succ hi)
    rw [List.take_succ_cons] at hnext
    change slot + (type.width + CodeBuffer.slots (types.take i)) ≤ 255 at hnext
    omega
  · rintro ⟨hslot, hrest⟩ i hi
    cases i with
    | zero => exact hslot
    | succ i =>
      have hnext := hrest i (Nat.lt_of_succ_lt_succ hi)
      rw [List.take_succ_cons]
      change slot + (type.width + CodeBuffer.slots (types.take i)) ≤ 255
      omega

/-- Parameters that can be loaded are not many, and take few slots. -/
theorem Loadable.le (h : Loadable slot types) (hvoid : ∀ t ∈ types, t ≠ .void) :
    types = [] ∨ slot + types.length ≤ 256 ∧ slot + CodeBuffer.slots types ≤ 257 := by
  induction types generalizing slot with
  | nil => exact .inl rfl
  | cons t ts ih =>
    obtain ⟨hslot, hrest⟩ := loadable_cons.mp h
    obtain ⟨hone, htwo⟩ := JType.width_bounds (hvoid t List.mem_cons_self)
    have hslots : CodeBuffer.slots (t :: ts) = t.width + CodeBuffer.slots ts := rfl
    refine .inr ?_
    rw [hslots, List.length_cons]
    rcases ih hrest fun u hu => hvoid u (List.mem_cons_of_mem t hu) with rfl | ⟨hlength, htotal⟩
    · have hnone : CodeBuffer.slots [] = 0 := rfl
      rw [hnone, List.length_nil]
      omega
    · omega

/-- A load of a value of a type is one instruction and pushes an entry of the type, unless its slot is too far off. -/
theorem ensures_load (htype : type ≠ .void) (slot : Nat) (e : Emission) :
    Ensures (inCode (CodeBuffer.load type slot)) e
      (fun _ t => slot ≤ 255 ∧ e.Within 0 1 t ∧ ∃ entry, StackType.ofType? type = some entry ∧ t.code.stack = entry :: e.code.stack)
      (fun fault _ => 255 < slot ∧ fault = .ofCode (.tooManyLocals slot)) := by
  rw [inCode, ensures_focus]
  refine (CodeBuffer.ensures_load type slot e.code).mono ?_ ?_
  · rintro _ _ ⟨k, entry, c, -, hentry, hslot, hc, rfl⟩
    refine ⟨hslot, .of_writes hc (.refl e.pool) rfl, entry, hentry, ?_⟩
    rw [← hc.stack]
    rfl
  · rintro fault _ ⟨⟨hvoid, -⟩ | ⟨hslot, hfault⟩, -⟩
    · exact absurd hvoid htype
    · exact ⟨hslot, congrArg Fault.ofCode hfault⟩

/-- A parameter is passed for another type: it is loaded and converted, then the rest goes on. Only the load can fail. -/
theorem ensures_pass {rest : Emit α} {ok : α → Emission → Prop} {err : Fault → Emission → Prop} (htype : type ≠ .void)
    (hassignable : classes.isAssignable type target = true) (hroom : slot ≤ 255 → e.pool.entries.size + 6 ≤ Pool.capacity)
    (hrest : ∀ t, slot ≤ 255 → e.Pushed 1 t → Ensures rest t ok err)
    (herr : ∀ t, 255 < slot → err (.ofCode (.tooManyLocals slot)) t) :
    Ensures (do inCode (CodeBuffer.load type slot); convert type target; rest) e ok err := by
  rw [ensures_bind]
  refine (ensures_load htype slot e).mono ?_ ?_
  · rintro _ t ⟨hslot, hload, entry, hentry, hstack⟩
    have hsize := hload.pool.2
    have hfits := hroom hslot
    rw [ensures_bind]
    refine (ensures_convert hassignable hentry hstack (by omega)).mono ?_ (fun _ _ h => h.elim)
    intro _ u hconverted
    obtain ⟨top, -, htop⟩ := hconverted.stack
    exact hrest u hslot ⟨hload.trans hconverted.within, [top], rfl, htop⟩
  · rintro fault t ⟨hslot, rfl⟩
    exact herr t hslot

/-- Constructor arguments that pass are pushed, one entry for each, when all can be loaded. -/
theorem ensures_pushArguments {args params : List Param} (hvoid : ∀ p ∈ args, p.type ≠ .void) (hpasses : classes.Passes args params)
    (hroom : e.pool.entries.size + 6 * (256 - slot) ≤ Pool.capacity) :
    Ensures (pushArguments slot args params) e
      (fun _ t => Loadable slot (args.map (·.type)) ∧ e.Pushed args.length t)
      (fun fault _ => ¬ Loadable slot (args.map (·.type)) ∧ ∃ n, fault = .ofCode (.tooManyLocals n)) := by
  induction hpasses generalizing slot e with
  | nil => exact ⟨nofun, .refl e⟩
  | @cons arg param args params hassignable _ ih =>
    obtain ⟨hone, -⟩ := JType.width_bounds (hvoid arg List.mem_cons_self)
    rw [pushArguments, List.map_cons]
    refine ensures_pass (hvoid arg List.mem_cons_self) hassignable (fun hslot => by omega) ?_ ?_
    · intro t hslot hpassed
      have hsize := hpassed.within.pool.2
      refine (ih (fun p hp => hvoid p (List.mem_cons_of_mem arg hp)) (by omega)).mono ?_ ?_
      · rintro _ u ⟨hloadable, hpushed⟩
        exact ⟨loadable_cons.mpr ⟨hslot, hloadable⟩, hpassed.trans hpushed⟩
      · rintro fault u ⟨hloadable, hfault⟩
        exact ⟨fun h => hloadable (loadable_cons.mp h).2, hfault⟩
    · intro t hslot
      exact ⟨fun h => absurd (loadable_cons.mp h).1 (Nat.not_le.mpr hslot), slot, rfl⟩

/-- A `byte`, `short`, `char` or `int`, or a wrapper of one of these. -/
def IsSize (type : JType) : Prop :=
  ∃ p ∈ [Primitive.byte, .short, .char, .int], type = .prim p ∨ ∃ kind, type = .named kind p.wrapper

/-- Of the named types only wrapper classes have values that can be unboxed. -/
theorem isSizeType_named (kind : NamedKind) (n : String) :
    isSizeType (.named kind n) = (Primitive.ofWrapper? n).any fun p => p.computesAsInt && p ≠ .boolean :=
  rfl

/-- The check for array sizes lets just these types through. -/
theorem isSizeType_iff : isSizeType type = true ↔ IsSize type := by
  have hsizes : ∀ p : Primitive, (p.computesAsInt && decide (p ≠ .boolean)) = true ↔ p ∈ [Primitive.byte, .short, .char, .int] := by
    intro p
    cases p <;> decide
  constructor
  · intro h
    cases type with
    | prim p => exact ⟨p, (hsizes p).mp h, .inl rfl⟩
    | named kind n =>
      rw [isSizeType_named, Option.any_eq_true] at h
      obtain ⟨p, hwrapper, hp⟩ := h
      exact ⟨p, (hsizes p).mp hp, .inr ⟨kind, by rw [Primitive.wrapper_of_ofWrapper? hwrapper]⟩⟩
    | array c => cases h
    | void => cases h
  · rintro ⟨p, hp, rfl | ⟨kind, rfl⟩⟩
    · exact (hsizes p).mpr hp
    · rw [isSizeType_named, Primitive.ofWrapper?_wrapper]
      exact (hsizes p).mpr hp

/-- A size is in one slot. -/
theorem IsSize.width (h : IsSize type) : type.width = 1 := by
  obtain ⟨p, hp, rfl | ⟨kind, rfl⟩⟩ := h
  · revert hp
    cases p <;> decide
  · rfl

/-- Sizes take as many slots as there are sizes. -/
theorem slots_of_isSize {args : List Param} (h : ∀ p ∈ args, IsSize p.type) : CodeBuffer.slots (args.map (·.type)) = args.length := by
  induction args with
  | nil => rfl
  | cons arg args ih =>
    change arg.type.width + CodeBuffer.slots (args.map (·.type)) = args.length + 1
    rw [(h arg List.mem_cons_self).width, ih fun p hp => h p (List.mem_cons_of_mem arg hp), Nat.add_comm]

/-- Array sizes are pushed, one entry for each, when all have types of sizes. Their slots are as many as they are. -/
theorem ensures_pushSizes {args : List Param} (hslots : slot + args.length ≤ 256)
    (hroom : e.pool.entries.size + 6 * args.length ≤ Pool.capacity) :
    Ensures (pushSizes span slot args) e
      (fun _ t => (∀ p ∈ args, IsSize p.type) ∧ e.Pushed args.length t)
      (fun fault _ => (∃ p ∈ args, ¬ IsSize p.type) ∧ ∃ what, fault = .shape what span) := by
  induction args generalizing slot e with
  | nil => exact ⟨nofun, .refl e⟩
  | cons arg args ih =>
    rw [List.length_cons] at hslots hroom
    unfold pushSizes
    split
    · rename_i hsize
      rw [Bool.not_eq_true', Bool.eq_false_iff] at hsize
      rw [ensures_bind, ensures_throw]
      exact ⟨⟨arg, List.mem_cons_self, fun h => hsize (isSizeType_iff.mpr h)⟩, _, rfl⟩
    · rename_i hsize
      have hsize : isSizeType arg.type = true := by simpa using hsize
      -- a size takes one slot, so the slots of the others are as near as they have to be
      have hwidth := (isSizeType_iff.mp hsize).width
      have hvoid : arg.type ≠ .void := by
        intro hvoid
        rw [hvoid] at hwidth
        cases hwidth
      have hassignable : ClassTable.empty.isAssignable arg.type .int = true := isAssignable_int_of_isSizeType hsize
      refine ensures_pass hvoid hassignable (fun _ => by omega) ?_ (fun t ht => by omega)
      intro t hslot hpassed
      have hentries := hpassed.within.pool.2
      refine (ih (by omega) (by omega)).mono ?_ ?_
      · rintro _ u ⟨hsizes, hpushed⟩
        refine ⟨?_, hpassed.trans hpushed⟩
        rintro p (_ | ⟨_, hp⟩)
        · exact isSizeType_iff.mp hsize
        · exact hsizes p hp
      · rintro fault u ⟨⟨p, hp, hno⟩, hfault⟩
        exact ⟨⟨p, List.mem_cons_of_mem arg hp, hno⟩, hfault⟩

/-! ## Arrays and objects -/

/-- The instruction that makes an array is written, and takes the sizes. -/
theorem ensures_allocate {count : Nat} (hcount : count ≤ maxSizes) (hstack : count ≤ e.code.stack.length)
    (hroom : e.pool.entries.size + 2 ≤ Pool.capacity) :
    Ensures (allocate type count) e (fun _ t => e.Within 2 1 t ∧ 0 < t.code.stack.length) (fun _ _ => False) := by
  -- whichever instruction it is, the sizes are taken off the stack and the array is put there
  have hrest : ∀ {t : Emission} {i : Instruction}, e.pool.Within 2 t.pool → e.code.Writes t.code [i] →
      Ensures (do inCode (CodeBuffer.pop count); write (·.push (.object type.constantName))) t
        (fun _ u => e.Within 2 1 u ∧ 0 < u.code.stack.length) (fun _ _ => False) := by
    intro t i hpool hwrites
    rw [ensures_bind, inCode, ensures_focus]
    refine (CodeBuffer.ensures_pop count t.code).mono ?_ ?_
    · intro _ c hc
      refine ensures_write _ ⟨.of_writes hwrites hpool ?_, Nat.zero_lt_succ _⟩
      change c.bytes = _
      rw [hc.eq]
    · rintro _ _ ⟨-, -, hshort⟩
      rw [hwrites.stack] at hshort
      omega
  unfold allocate
  split
  · rename_i p _
    rw [ensures_bind]
    exact ensures_write _ (hrest ((Pool.Within.refl e.pool).mono (Nat.zero_le 2)) (CodeBuffer.writes_emitOp1 e.code (decodes_newarray p)))
  · rw [ensures_bind]
    refine (ensures_inPool_of_takes (Pool.takes_addClass _) hroom).mono ?_ (fun _ _ h => h)
    rintro index _ ⟨p, hp, rfl⟩
    rw [ensures_bind]
    exact ensures_write _ (hrest hp (CodeBuffer.writes_emitOp2 e.code (Instruction.decodes_word rfl rfl)))
  · rw [ensures_bind]
    refine (ensures_inPool_of_takes (Pool.takes_addClass _) hroom).mono ?_ (fun _ _ h => h)
    rintro index _ ⟨p, hp, rfl⟩
    rw [ensures_bind]
    exact ensures_write _ (hrest hp (writes_multianewarray e.code index hcount))

/-- What a factory can make of its parameters: an array of which they can be sizes, or an object of a registered class that is no interface
and not abstract, by a constructor that applies to them when they can all be loaded. -/
inductive Makeable (s : Scope) (exact : List Param) : JType → Prop where
  | array {c : JType} (some : exact ≠ []) (count : exact.length ≤ maxSizes) (dimensions : exact.length ≤ (JType.array c).dimensions)
    (sizes : ∀ p ∈ exact, IsSize p.type) : Makeable s exact (.array c)
  | object {kind : NamedKind} {name : String} {decl : ClassDecl} {m : MethodDecl} (registered : s.classes.underlying? name = some decl)
    (concrete : decl.isInterface = false ∧ decl.isAbstract = false) (constructor : s.Applies decl exact m)
    (loadable : Loadable 0 (exact.map (·.type))) : Makeable s exact (.named kind name)

/-- What may be wrong with a creation: its form, its arguments, or the slots that they take. -/
inductive Rejection (span : Span) : Fault → Prop where
  | shape (what : ShapeFault) : Rejection span (.shape what span)
  | unresolved (types : List JType) (target : JType) : Rejection span (.unresolved WellKnown.creation types target span)
  | tooManyLocals (slots : Nat) : Rejection span (.ofCode (.tooManyLocals slots))

/-- The constants that a body can add: two for the class, six for each of the parameters that can be loaded, and six for the constructor. -/
def bodyConstants : Nat :=
  2 + (6 * 256 + 6)

/-- The instructions of a body: two for the object, three for each of the parameters that can be loaded, and the call of the constructor or
the allocation; the return is another. -/
def bodyInstructions : Nat :=
  2 + (3 * 256 + 1) + 1

variable {s : Scope} {exact : List Param}

/-- An array is made of parameters that can be its sizes, and the form of the reference is rejected otherwise. -/
theorem ensures_makeArray {c : JType} (hroom : e.pool.entries.size + bodyConstants ≤ Pool.capacity) :
    Ensures (makeArray (.array c) exact span) e
      (fun _ t => Makeable s exact (.array c) ∧ e.Within bodyConstants (bodyInstructions - 1) t ∧ 0 < t.code.stack.length)
      (fun fault _ => ¬ Makeable s exact (.array c) ∧ Rejection span fault) := by
  unfold bodyConstants at hroom
  unfold makeArray
  rw [ensures_bind, ensures_answer]
  refine ⟨fun _ hchecked => ?_, fun fault hfault => ?_⟩
  · obtain ⟨hsome, hcount, hdimensions⟩ := checkSizes_eq_ok (mapError_eq_ok.mp hchecked)
    have hlength : exact.length ≤ 255 := hcount
    rw [ensures_bind]
    refine (ensures_pushSizes (by omega) (by omega)).mono ?_ ?_
    · rintro _ t ⟨hsizes, hpushed⟩
      have hentries := hpushed.within.pool.2
      have hlengths := hpushed.length_stack
      refine (ensures_allocate hcount (by omega) (by omega)).mono ?_ (fun _ _ h => h.elim)
      rintro _ u ⟨hallocated, htop⟩
      refine ⟨.array (by simpa using hsome) hcount hdimensions hsizes, (hpushed.within.trans hallocated).mono ?_ ?_, htop⟩
      · unfold bodyConstants
        omega
      · unfold bodyInstructions
        omega
    · rintro fault t ⟨⟨p, hp, hno⟩, what, rfl⟩
      refine ⟨?_, .shape what⟩
      rintro ⟨_, _, _, hsizes⟩
      exact hno (hsizes p hp)
  · obtain ⟨what, hwhat, rfl⟩ := mapError_eq_error.mp hfault
    refine ⟨?_, .shape what⟩
    rintro ⟨hsome, hcount, hdimensions, _⟩
    have hpass : checkSizes (.array c) exact.length = .ok () := by
      rw [checkSizes, if_neg (by simpa using hsome), if_neg (Nat.not_lt.mpr hcount), if_neg (Nat.not_lt.mpr hdimensions)]
    rw [hpass] at hwhat
    cases hwhat

/-- An object is made of parameters that pass for those of the constructor, when they can all be loaded. -/
theorem ensures_construct {className : String} {constructor : MethodDecl} (hvoid : ∀ p ∈ exact, p.type ≠ .void)
    (hpasses : s.classes.Passes exact constructor.params) (hroom : e.pool.entries.size + bodyConstants ≤ Pool.capacity) :
    Ensures (construct className constructor exact) e
      (fun _ t => Loadable 0 (exact.map (·.type)) ∧ e.Within bodyConstants (bodyInstructions - 1) t ∧ 0 < t.code.stack.length)
      (fun fault _ => ¬ Loadable 0 (exact.map (·.type)) ∧ ∃ n, fault = .ofCode (.tooManyLocals n)) := by
  unfold bodyConstants at hroom
  unfold construct
  rw [ensures_bind]
  refine (ensures_inPool_of_takes (Pool.takes_addClass _) (by omega)).mono ?_ (fun _ _ h => h.elim)
  rintro classIndex _ ⟨p, hp, rfl⟩
  have hsize := hp.2
  have hnew : e.Within 2 1 ⟨p, (e.code.emitOp2 Opcode.new classIndex).push (.object className)⟩ :=
    .of_writes (CodeBuffer.writes_emitOp2 e.code (Instruction.decodes_word rfl rfl)) hp rfl
  rw [ensures_bind]
  refine ensures_write _ ?_
  generalize hcreated : (e.code.emitOp2 Opcode.new classIndex).push (.object className) = created at hnew
  have hdup : Emission.Within 0 1 ⟨p, created⟩ ⟨p, (created.emitOp Opcode.dup).push (.object className)⟩ :=
    .of_writes (CodeBuffer.writes_emitOp created (Instruction.decodes_single rfl rfl)) (.refl p) rfl
  rw [ensures_bind]
  refine ensures_write _ ?_
  have hstart := hnew.trans hdup
  generalize hnewed : Emission.mk p ((created.emitOp Opcode.dup).push (.object className)) = newed at hstart
  have hstack : newed.code.stack = .object className :: .object className :: e.code.stack := by
    rw [← hnewed, ← hcreated]
    rfl
  have hentries := hstart.pool.2
  rw [ensures_bind]
  refine (ensures_pushArguments hvoid hpasses (by omega)).mono ?_ ?_
  · rintro _ t ⟨hloadable, hpushed⟩
    -- they could be loaded, so they are few, and there is room for the constants of the call
    have hlength : exact.length ≤ 256 := by
      rcases hloadable.le (by simpa using hvoid) with hnone | ⟨hlength, -⟩
      · simp [List.map_eq_nil_iff.mp hnone]
      · simpa using hlength
    have hpushedEntries := hpushed.within.pool.2
    rw [ensures_bind]
    refine (ensures_inPool_of_takes (Pool.takes_addMember .method className _ _) (by omega)).mono ?_ (fun _ _ h => h.elim)
    rintro index _ ⟨q, hq, rfl⟩
    have hparams : constructor.paramTypes.length = exact.length := by
      rw [MethodDecl.paramTypes, List.length_map, hpasses.length_eq]
    rw [inCode, ensures_focus]
    refine (CodeBuffer.ensures_invoke_of_le .special index .void ?_).mono ?_ (fun _ _ h => h.elim)
    · rw [hpushed.length_stack, hstack, hparams]
      simp [CallKind.targets]
    · rintro _ c ⟨hcode, hc⟩
      have hcalled : Emission.Within 6 1 t ⟨q, c⟩ := ⟨hq, _, hcode, Nat.le_refl 1⟩
      refine ⟨hloadable, ((hstart.trans hpushed.within).trans hcalled).mono ?_ ?_, ?_⟩
      · unfold bodyConstants
        omega
      · unfold bodyInstructions
        omega
      · rw [hc, hparams, ← List.drop_drop, hpushed.drop_stack, hstack]
        exact Nat.zero_lt_succ _
  · rintro fault t ⟨hloadable, hfault⟩
    exact ⟨hloadable, hfault⟩

/-- A creation has a constructor where the class is registered, can have objects of its own, and has one that applies. -/
theorem constructorOf_cases (s : Scope) (kind : NamedKind) (className : String) (exact : List Param) (span : Span) :
    (∃ decl m, s.classes.underlying? className = some decl ∧ (decl.isInterface = false ∧ decl.isAbstract = false) ∧ s.Applies decl exact m ∧
        constructorOf s (.named kind className) className exact span = .ok m) ∨
      (¬ Makeable s exact (.named kind className) ∧ ∃ fault, Rejection span fault ∧
        constructorOf s (.named kind className) className exact span = .error fault) := by
  unfold constructorOf
  cases hdecl : s.classes.underlying? className with
  | none =>
    refine .inr ⟨?_, _, .unresolved (exact.map (·.type)) (.ofClass className), ?_⟩
    · rintro ⟨⟩
      simp_all
    · simp [Scope.constructorFor, hdecl]
  | some decl =>
    by_cases hconcrete : decl.isInterface = false ∧ decl.isAbstract = false
    · have hkind : (decl.isInterface || decl.isAbstract) = false := by simp [hconcrete.1, hconcrete.2]
      simp only [Option.any_some, hkind, Bool.false_eq_true, if_false]
      cases hcall : s.constructorFor className exact span with
      | ok m => exact .inl ⟨decl, m, rfl, hconcrete, Scope.applies_of_constructorFor hdecl hcall, rfl⟩
      | error fault =>
        obtain ⟨hnone, rfl⟩ := (Scope.constructorFor_eq_error_iff hdecl).mp hcall
        refine .inr ⟨?_, _, .unresolved (exact.map (·.type)) (.ofClass className), rfl⟩
        rintro ⟨⟩
        simp_all
    · have hkind : (decl.isInterface || decl.isAbstract) = true := by
        revert hconcrete
        cases decl.isInterface <;> cases decl.isAbstract <;> simp
      simp only [Option.any_some, hkind, if_true]
      refine .inr ⟨?_, _, .shape _, rfl⟩
      rintro ⟨⟩
      simp_all

/-- The code of a factory, before its last instruction, is written where there is something to make. -/
theorem ensures_make (hvoid : ∀ p ∈ exact, p.type ≠ .void) (hroom : e.pool.entries.size + bodyConstants ≤ Pool.capacity) :
    Ensures (make s type exact span) e
      (fun _ t => Makeable s exact type ∧ e.Within bodyConstants (bodyInstructions - 1) t ∧ 0 < t.code.stack.length)
      (fun fault _ => ¬ Makeable s exact type ∧ Rejection span fault) := by
  unfold make
  cases type with
  | prim p => exact ⟨nofun, .shape _⟩
  | void => exact ⟨nofun, .shape _⟩
  | array c => exact ensures_makeArray hroom
  | named kind className =>
    dsimp only
    rw [ensures_bind]
    rcases constructorOf_cases s kind className exact span with ⟨decl, m, hdecl, hconcrete, happlies, hcall⟩ | ⟨hno, fault, hfault, hcall⟩
    · rw [hcall, ensures_answer_ok]
      refine (ensures_construct hvoid happlies.accepted hroom).mono ?_ ?_
      · rintro _ t ⟨hloadable, hmade⟩
        exact ⟨.object hdecl hconcrete happlies hloadable, hmade⟩
      · rintro _ t ⟨hloadable, n, rfl⟩
        refine ⟨?_, .tooManyLocals n⟩
        rintro ⟨⟩
        exact hloadable ‹_›
    · rw [hcall, ensures_answer_error]
      exact ⟨hno, hfault⟩

/-- What can be made is a reference. -/
theorem Makeable.isReference (h : Makeable s exact type) : type.isReference = true := by
  cases h <;> rfl

/-- What can be made has parameters whose slots can be reserved. -/
theorem Makeable.slots_lt (h : Makeable s exact type) (hvoid : ∀ p ∈ exact, p.type ≠ .void) :
    CodeBuffer.slots (exact.map (·.type)) < 65536 := by
  cases h with
  | array _ hcount _ hsizes =>
    rw [slots_of_isSize hsizes]
    exact Nat.lt_of_le_of_lt hcount (by decide)
  | object _ _ _ hloadable =>
    rcases hloadable.le (by simpa using hvoid) with hnone | ⟨-, hslots⟩
    · rw [hnone]
      decide
    · omega

/-- The body of a factory is written where there is something to make, and small. -/
theorem ensures_body (hvoid : ∀ p ∈ exact, p.type ≠ .void) (hroom : e.pool.entries.size + bodyConstants ≤ Pool.capacity) :
    Ensures (body s type exact span) e (fun _ t => Makeable s exact type ∧ e.Within bodyConstants bodyInstructions t)
      (fun fault _ => ¬ Makeable s exact type ∧ Rejection span fault) := by
  unfold body
  rw [ensures_bind, inCode, ensures_focus]
  refine (CodeBuffer.ensures_ensureLocals _ e.code).mono ?_ ?_
  · rintro _ c ⟨-, hc⟩
    have hreserved : e.Within 0 0 ⟨e.pool, c⟩ := ⟨.refl e.pool, [], (CodeBuffer.Appends.refl e.code).of_bytes (by rw [hc]), Nat.le_refl 0⟩
    rw [ensures_bind]
    refine (ensures_make (e := ⟨e.pool, c⟩) hvoid hroom).mono ?_ (fun _ _ h => h)
    rintro _ t ⟨hmakeable, hmade, hstack⟩
    rw [inCode, ensures_focus]
    refine (CodeBuffer.ensures_emitReturn type t.code).mono ?_ ?_
    · intro _ d hd
      have hreturn := CodeBuffer.writes_emitOp t.code (decodes_returnOf hmakeable.isReference)
      have hreturned : t.Within 0 1 ⟨t.pool, d⟩ := .of_writes hreturn (.refl t.pool) (by rw [hd.eq])
      refine ⟨hmakeable, ((hreserved.trans hmade).trans hreturned).mono ?_ ?_⟩
      · omega
      · unfold bodyInstructions
        omega
    · intro fault d hshort
      split at hshort <;> omega
  · rintro fault c ⟨hslots, hfault⟩
    refine ⟨fun h => absurd (h.slots_lt hvoid) (Nat.not_lt.mpr hslots), ?_⟩
    rw [hfault]
    exact .tooManyLocals _

end Factory

end Linkage
