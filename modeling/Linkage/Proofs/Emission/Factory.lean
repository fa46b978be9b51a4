import Linkage.Proofs.Emission.Conversion
import Linkage.Proofs.Kinds
import Linkage.Proofs.Resolution

/-!
# The code of factories

A factory loads each of its parameters once, in order, converts it to what it is passed for, and calls the constructor or makes the array
with what is then on the stack. `Factory.carries_make` says so of the machine over types, for parameter lists of any length.
-/

namespace Linkage

open Emit Emission

/-- A slot in which the local slots begin with a parameter that takes room. -/
theorem getElem?_of_drop_localsFrom {locals : List (Option (Nat × JType))} {slot number : Nat} {type : JType} {types : List JType}
    (h : locals.drop slot = localsFrom number (type :: types)) (hwidth : type.width ≠ 0) :
    locals[slot]? = some (some (number, type)) ∧ locals.drop (slot + type.width) = localsFrom (number + 1) types := by
  obtain ⟨more, hmore⟩ := Nat.exists_eq_succ_of_ne_zero hwidth
  rw [localsFrom, hmore] at h
  constructor
  · rw [← Nat.add_zero slot, ← List.getElem?_drop, h]
    rfl
  · rw [← List.drop_drop, h, hmore]
    simp

/-- The local slots are those that the parameters take. -/
theorem length_localsFrom (number : Nat) (types : List JType) : (localsFrom number types).length = CodeBuffer.slots types := by
  induction types generalizing number with
  | nil => rfl
  | cons type types ih =>
    have hslots : CodeBuffer.slots (type :: types) = type.width + CodeBuffer.slots types := rfl
    unfold localsFrom
    split
    · rename_i hwidth
      rw [ih, hslots, hwidth, Nat.zero_add]
    · rename_i more hwidth
      simp [ih, hslots, hwidth]
      omega

namespace Factory

variable {handles : UInt8 → MemberKind → Prop} {bootstraps : Nat} {classes : ClassTable} {locals : List (Option (Nat × JType))}
  {s : Emission} {f : Frame}

/-- Code that passes one parameter, before further code: it is loaded and converted to what it is passed for. The stack takes at most
twice the slots of the locals that were passed, so it stays within 16 bits as long as loads can name the locals. -/
theorem carries_pass {α : Type} {type target : JType} {types : List JType} {slot number : Nat} {rest : Emit α}
    {view : α → Emission → Prop} (he : s.pool.Fits) (hs : s.code.Tracks f)
    (hlocals : locals.drop slot = localsFrom number (type :: types)) (hassignable : classes.isAssignable type target = true)
    (hroom : Operand.slots f.stack ≤ 2 * slot + 2)
    (hrest : ∀ (t : Emission) (passed : JType) (peak : Nat), t.pool.Fits →
      locals.drop (slot + type.width) = localsFrom (number + 1) types →
      Operand.slots (.value passed [number] :: f.stack) ≤ 2 * (slot + type.width) + 2 → classes.fits passed target = true →
      Carries classes locals s f t
        { f with stack := .value passed [number] :: f.stack, loads := f.loads ++ [number], peak := peak } →
      Adds handles bootstraps rest t view) :
    Adds handles bootstraps (do inCode (CodeBuffer.load type slot); convert type target; rest) s view := by
  have hload : Adds handles bootstraps (inCode (CodeBuffer.load type slot)) s fun _ t => slot ≤ 255 ∧ type.width ≠ 0 ∧
      Carries classes locals s f t ({ f with loads := f.loads ++ [number] }.push (.value type [number])) :=
    carries_load hs (fun hwidth => (getElem?_of_drop_localsFrom hlocals hwidth).1) (by omega)
  refine Adds.bind hload ?_
  intro _ s₁ h₁ hview
  obtain ⟨hslot, hwidth, hc₁⟩ := hview
  have he₁ := h₁.fits he
  have hconvert : Adds handles bootstraps (convert type target) s₁ fun _ t =>
      Converts classes locals s₁ ({ f with loads := f.loads ++ [number] }.push (.value type [number])) [number] f.stack target t :=
    converts_convert he₁ hc₁.tracks rfl hassignable (by omega)
  refine Adds.bind hconvert ?_
  intro _ s₂ h₂ hview
  obtain ⟨passed, peak, hfits, hc₂⟩ := hview
  refine hrest s₂ passed peak (h₂.fits he₁) (getElem?_of_drop_localsFrom hlocals hwidth).2 ?_ hfits (hc₁.trans hc₂)
  -- the value may have been widened, but took at least one slot among the locals
  have hle := Operand.slots_value_le passed [number] f.stack
  omega

/-- Arguments are passed for parameters in order, each loaded once. -/
theorem carries_pushArguments {args params : List Param} {slot number : Nat} (he : s.pool.Fits) (hs : s.code.Tracks f)
    (hlocals : locals.drop slot = localsFrom number (args.map (·.type))) (haccepts : classes.accepts args params = true)
    (hroom : Operand.slots f.stack ≤ 2 * slot + 2) :
    Adds handles bootstraps (pushArguments slot args params) s fun _ t => ∃ os peak,
      Operand.Passed classes number os (params.map (·.type)) ∧
        Carries classes locals s f t
          { f with stack := os.reverse ++ f.stack, loads := f.loads ++ List.range' number args.length, peak := peak } := by
  induction args generalizing slot number params s f with
  | nil =>
    cases params with
    | cons param params => cases haccepts
    | nil =>
      refine ⟨.refl, [], f.peak, trivial, ?_⟩
      simp only [List.reverse_nil, List.nil_append, List.length_nil, List.range'_zero, List.append_nil]
      exact .refl hs
  | cons arg args ih =>
    cases params with
    | nil => cases haccepts
    | cons param params =>
      simp only [ClassTable.accepts, Bool.and_eq_true] at haccepts
      refine carries_pass he hs hlocals haccepts.1 hroom fun t passed peak ht hlocals' hroom' hfits hc => ?_
      refine (ih ht hc.tracks hlocals' haccepts.2 hroom').mono ?_
      intro _ u _ hview
      obtain ⟨os, peak', hos, hc'⟩ := hview
      refine ⟨.value passed [number] :: os, peak', ⟨rfl, hfits, hos⟩, ?_⟩
      have htrans := hc.trans hc'
      simpa [List.range'_succ] using htrans

/-- What can be an array size may be passed for an `int`. -/
theorem isAssignable_int_of_isSizeType {type : JType} (h : isSizeType type = true) : classes.isAssignable type .int = true := by
  have hint : ∀ p : Primitive, (p.computesAsInt && decide (p ≠ .boolean)) = true → p = .int ∨ p.widensTo .int = true := by
    intro p
    cases p <;> decide
  cases type with
  | prim p =>
    have hp : (p.computesAsInt && decide (p ≠ .boolean)) = true := h
    rcases hint p hp with rfl | hwider
    · simp [ClassTable.isAssignable, classes.isSubtype_of_equiv (Setoid.refl _), JType.int]
    · simp [ClassTable.isAssignable, JType.int, hwider]
  | named k n =>
    cases hwrapper : Primitive.ofWrapper? n with
    | none => simp [isSizeType, JType.primitive?, JType.unboxed?, JType.internalName?, hwrapper] at h
    | some p =>
      have hp : (p.computesAsInt && decide (p ≠ .boolean)) = true := by
        simpa [isSizeType, JType.primitive?, JType.unboxed?, JType.internalName?, hwrapper] using h
      simpa [ClassTable.isAssignable, JType.int, hwrapper] using .inr (hint p hp)
  | array c => simp [isSizeType, JType.primitive?, JType.unboxed?, JType.internalName?] at h
  | void => simp [isSizeType, JType.primitive?, JType.unboxed?, JType.internalName?] at h

variable (classes) in
/-- Sizes are passed for `int`s in order, each loaded once. -/
theorem carries_pushSizes {span : Span} {args : List Param} {slot number : Nat} (he : s.pool.Fits) (hs : s.code.Tracks f)
    (hlocals : locals.drop slot = localsFrom number (args.map (·.type))) (hroom : Operand.slots f.stack ≤ 2 * slot + 2) :
    Adds handles bootstraps (pushSizes span slot args) s fun _ t => ∃ os peak,
      Operand.Passed classes number os (List.replicate args.length .int) ∧
        Carries classes locals s f t
          { f with stack := os.reverse ++ f.stack, loads := f.loads ++ List.range' number args.length, peak := peak } := by
  induction args generalizing slot number s f with
  | nil =>
    refine ⟨.refl, [], f.peak, trivial, ?_⟩
    simp only [List.reverse_nil, List.nil_append, List.length_nil, List.range'_zero, List.append_nil]
    exact .refl hs
  | cons arg args ih =>
    unfold pushSizes
    split
    · exact .refl
    · rename_i hsize
      have hassignable : classes.isAssignable arg.type .int = true := isAssignable_int_of_isSizeType (by simpa using hsize)
      refine carries_pass he hs hlocals hassignable hroom fun t passed peak ht hlocals' hroom' hfits hc => ?_
      refine (ih ht hc.tracks hlocals' hroom').mono ?_
      intro _ u _ hview
      obtain ⟨os, peak', hos, hc'⟩ := hview
      refine ⟨.value passed [number] :: os, peak', ⟨rfl, hfits, hos⟩, ?_⟩
      have htrans := hc.trans hc'
      simpa [List.range'_succ] using htrans

/-! ## Arrays -/

/-- Behind the instruction that makes an array, the buffer takes the sizes and pushes the array. -/
theorem carries_made {s₁ : Emission} {i : Instruction} {name : String} {os : List Operand} {number : Nat} {made type : JType}
    (hmade : made ≈ type) (hpool : s.pool.Extends s₁.pool) (hs : s.code.Tracks f) (hc : s.code.Writes s₁.code [i])
    (hstack : f.stack = os.reverse) (hos : Operand.Passed classes number os (List.replicate os.length .int))
    (hwidth : made.width = 1)
    (hstep : ∀ p, s₁.pool.Extends p → f.exec? classes locals p i = f.allocate classes made os.length) :
    Adds handles bootstraps (do inCode (CodeBuffer.pop os.length); write (·.push (.object name))) s₁ fun _ t =>
      ∃ made peak, made ≈ type ∧ Carries classes locals s f t
        { f with stack := [.value made (os.flatMap Operand.sources)], allocated := f.allocated ++ [(made, os)], peak := peak } := by
  refine Adds.bind (adds_inCode (CodeBuffer.ensures_pop os.length s₁.code)) ?_
  intro _ s₂ _ hview
  obtain ⟨hpool₂, hpop⟩ := hview
  refine (adds_write _).mono ?_
  intro _ t _ hview
  obtain ⟨hpool₃, ht⟩ := hview
  have hdrop : f.stack.drop os.length = [] := by simp [hstack]
  have hpools : t.pool = s₁.pool := hpool₃.trans hpool₂
  refine ⟨made, _, hmade, carries_push (g := { f with stack := [], allocated := f.allocated ++ [(made, os)] }) ?_ hc hpop ht hs
    hdrop.symm rfl hwidth.symm ?_ ?_⟩
  · rw [hpools]
    exact hpool
  · exact Nat.lt_of_le_of_lt (Operand.slots_value_le made _ []) (by decide)
  · intro p hp
    rw [hpools] at hp
    rw [hstep p hp]
    exact Frame.allocate_eq_some (by rw [hstack, List.append_nil]) hos

theorem decodes_newarray (p : Primitive) : Instruction.Decodes [Opcode.newarray, Opcode.elementCode p] [.newarray p] := by
  cases p <;> exact Instruction.decodes_single rfl rfl

/-- The number of sizes behind the index of a multi-dimensional creation is read back when it is within one byte. -/
theorem writes_multianewarray (b : CodeBuffer) (index : UInt16) {count : Nat} (hcount : count ≤ maxSizes) :
    b.Writes ((b.emitOp2 Opcode.multianewarray index).emitByte count.toUInt8) [.multianewarray index count] := by
  have hsize : count.toUInt8.toNat = count := by
    rw [Nat.toUInt8_eq, UInt8.toNat_ofNat']
    unfold maxSizes at hcount
    exact Nat.mod_eq_of_lt (by omega)
  have hparts : Instruction.ofParts? Opcode.multianewarray.toNat (be16 index ++ [count.toUInt8]) =
      some (.multianewarray index count) := by
    change some (Instruction.multianewarray (word16 (index >>> 8).toUInt8 index.toUInt8) count.toUInt8.toNat) = _
    rw [word16_be16, hsize]
  exact ⟨⟨Opcode.multianewarray :: (be16 index ++ [count.toUInt8]), by simp [CodeBuffer.emitOp2, CodeBuffer.emitOp,
    CodeBuffer.emitWord, CodeBuffer.emitByte], Instruction.decodes_single rfl hparts⟩, rfl, rfl, rfl, rfl⟩

/-- Sizes that pass the check are some, no more than one byte counts, and no more than the dimensions. -/
theorem checkSizes_eq_ok {type : JType} {count : Nat} (h : checkSizes type count = .ok ()) :
    count ≠ 0 ∧ count ≤ maxSizes ∧ count ≤ type.dimensions := by
  unfold checkSizes at h
  by_cases hzero : count = 0
  · rw [if_pos hzero] at h
    cases h
  by_cases hmax : maxSizes < count
  · rw [if_neg hzero, if_pos hmax] at h
    cases h
  by_cases hdimensions : type.dimensions < count
  · rw [if_neg hzero, if_neg hmax, if_pos hdimensions] at h
    cases h
  exact ⟨hzero, Nat.le_of_not_lt hmax, Nat.le_of_not_lt hdimensions⟩

variable (locals) in
/-- Sizes on the stack are taken for an array of the type. -/
theorem carries_allocate {c : JType} {os : List Operand} {number : Nat} (he : s.pool.Fits) (hs : s.code.Tracks f)
    (hstack : f.stack = os.reverse) (hos : Operand.Passed classes number os (List.replicate os.length .int))
    (hcount : checkSizes (.array c) os.length = .ok ()) (htype : (JType.array c).Describable) :
    Adds handles bootstraps (allocate (.array c) os.length) s fun _ t => ∃ made peak, made ≈ .array c ∧
      Carries classes locals s f t
        { f with stack := [.value made (os.flatMap Operand.sources)], allocated := f.allocated ++ [(made, os)], peak := peak } := by
  obtain ⟨hpositive, hmax, hdimensions⟩ := checkSizes_eq_ok hcount
  unfold allocate
  split
  · rename_i p hc hone
    cases hc
    refine Adds.bind (adds_write _) ?_
    intro _ s₁ _ hview
    obtain ⟨hpool, hcode⟩ := hview
    refine carries_made (i := .newarray p) (Setoid.refl _) ?_ hs ?_ hstack hos rfl ?_
    · rw [hpool]
      exact .refl _
    · rw [hcode]
      exact CodeBuffer.writes_emitOp1 s.code (decodes_newarray p)
    · intro q _
      rw [Frame.exec?, hone]
  · rename_i d hprim hc hone
    cases hc
    have href : c.isReference = true := by
      cases c with
      | prim p => exact absurd rfl (hprim p)
      | void => exact absurd rfl htype.1
      | named k n => rfl
      | array d => rfl
    refine Adds.bind (adds_inPool (Pool.adds_addClass c.constantName he)) ?_
    intro index s₁ h₁ hview
    obtain ⟨hcode₁, hindex⟩ := hview
    refine Adds.bind (adds_write _) ?_
    intro _ s₂ _ hview
    obtain ⟨hpool₂, hcode₂⟩ := hview
    have hmade : JType.array c.untag ≈ .array c := by simp only [JType.equiv_def, JType.untag, JType.untag_untag]
    refine carries_made (i := .anewarray index) hmade ?_ hs ?_ hstack hos rfl ?_
    · rw [hpool₂]
      exact h₁.toExtends
    · rw [hcode₂, hcode₁]
      exact CodeBuffer.writes_emitOp2 s.code (Instruction.decodes_word rfl rfl)
    · intro q hq
      rw [hpool₂] at hq
      simp [Frame.exec?, hq.className? hindex, JType.ofConstantName?_constantName htype.2 href, hone]
  · rename_i hprim hone
    refine Adds.bind (adds_inPool (Pool.adds_addClass (JType.array c).constantName he)) ?_
    intro index s₁ h₁ hview
    obtain ⟨hcode₁, hindex⟩ := hview
    refine Adds.bind (adds_write _) ?_
    intro _ s₂ _ hview
    obtain ⟨hpool₂, hcode₂⟩ := hview
    have hmade : (JType.array c).untag ≈ .array c := by simp only [JType.equiv_def, JType.untag_untag]
    refine carries_made (i := .multianewarray index os.length) hmade ?_ hs ?_ hstack hos rfl ?_
    · rw [hpool₂]
      exact h₁.toExtends
    · rw [hcode₂, hcode₁]
      exact writes_multianewarray s.code index hmax
    · intro q hq
      rw [hpool₂] at hq
      have henough : ¬(JType.array c).untag.dimensions < os.length := by
        rw [JType.dimensions_untag]
        exact Nat.not_lt.mpr hdimensions
      simp [Frame.exec?, hq.className? hindex, JType.ofConstantName?_constantName htype rfl, hpositive, henough]

variable (classes) in
/-- An array is made with the exact parameters as its sizes. -/
theorem carries_makeArray {c : JType} {exact : List Param} {span : Span} (he : s.pool.Fits) (hs : s.code.Tracks f)
    (hstack : f.stack = []) (hlocals : locals = localsFrom 0 (exact.map (·.type))) (htype : (JType.array c).Describable) :
    Adds handles bootstraps (makeArray (.array c) exact span) s fun _ t => ∃ made os peak, made ≈ .array c ∧
      Operand.Passed classes 0 os (List.replicate exact.length .int) ∧
        Carries classes locals s f t
          { f with
            stack := [.value made (os.flatMap Operand.sources)]
            loads := f.loads ++ List.range' 0 exact.length
            allocated := f.allocated ++ [(made, os)]
            peak := peak } := by
  unfold makeArray
  refine Adds.bind (Moves.answer .refl _) ?_
  intro _ _ _ hview
  obtain ⟨rfl, hchecked⟩ := hview
  have hcount : checkSizes (.array c) exact.length = .ok () := mapError_eq_ok.mp hchecked
  have hroom : Operand.slots f.stack ≤ 2 := by simp [hstack, Operand.slots]
  refine Adds.bind (carries_pushSizes classes he hs hlocals hroom) ?_
  intro _ s₁ h₁ hview
  obtain ⟨os, peak, hos, hc₁⟩ := hview
  have hlength : os.length = exact.length := by rw [hos.length_eq, List.length_replicate]
  rw [← hlength] at hos hcount hc₁ ⊢
  refine (carries_allocate locals (h₁.fits he) hc₁.tracks ?_ hos hcount htype).mono ?_
  · simp [hstack]
  · intro _ t _ hview
    obtain ⟨made, peak', hmade, hc₂⟩ := hview
    exact ⟨made, os, peak', hmade, hos, hc₁.trans hc₂⟩

/-! ## Objects -/

/-- The instruction that makes an object leaves a reference to it. -/
theorem carries_new {t : Emission} {index : UInt16} {className : String} (hpool : s.pool.Extends t.pool)
    (hindex : t.pool.className? index = some className)
    (ht : t.code = (s.code.emitOp2 Opcode.new index).push (.object className)) (hs : s.code.Tracks f)
    (hroom : Operand.slots f.stack + 1 < 65536) : Carries classes locals s f t (f.create className) := by
  refine carries_push (g := { f with created := f.created ++ [className] }) hpool
    (CodeBuffer.writes_emitOp2 s.code (Instruction.decodes_word rfl rfl)) (.zero _) ht hs rfl rfl rfl ?_ ?_
  · rw [Operand.slots_cons, Nat.add_comm]
    exact hroom
  · intro q hq
    simp [Frame.exec?, hq.className? hindex, Frame.create]

/-- The value on top of the stack is there twice. -/
theorem carries_dup {t : Emission} {entry : StackType} {o : Operand} {rest : List Operand} (hpool : t.pool = s.pool)
    (ht : t.code = (s.code.emitOp Opcode.dup).push entry) (hs : s.code.Tracks f) (hstack : f.stack = o :: rest)
    (hone : o.width = 1) (hwidth : entry.width.toNat = o.width) (hroom : Operand.slots f.stack + 1 < 65536) :
    Carries classes locals s f t (f.push o) := by
  refine carries_push ?_ (CodeBuffer.writes_emitOp s.code (Instruction.decodes_single rfl rfl)) (.zero _) ht hs rfl rfl hwidth ?_ ?_
  · rw [hpool]
    exact .refl _
  · rw [Operand.slots_cons, hone, Nat.add_comm]
    exact hroom
  · intro q _
    simp [Frame.exec?, hstack, hone]

variable (locals) in
/-- The call of a constructor takes the arguments and one of the two references to the object, and initialises the object. -/
theorem carries_initialise {number first : Nat} {className : String} {os : List Operand} {params : List JType} (he : s.pool.Fits)
    (hs : s.code.Tracks f) (hstack : f.stack = os.reverse ++ [.fresh number className, .fresh number className])
    (hos : Operand.Passed classes first os params) (hparams : ∀ type ∈ params, type.Plain) :
    Adds handles bootstraps (invoke Opcode.invokespecial .method className WellKnown.constructor params .void) s fun _ t =>
      Carries classes locals s f t
        { f with
          stack := [.value (.ofClass className) []]
          constructed := f.constructed ++ [(className, methodDescriptor params .void, os)] } := by
  refine (adds_invoke .special .method className WellKnown.constructor params .void he).mono ?_
  intro _ t h hview
  obtain ⟨i, c, d, hc, hd, ht, hi⟩ := hview
  have hdrop : f.stack.drop (params.length + CallKind.special.targets) = [.fresh number className] := by
    rw [hstack, ← hos.length_eq, ← List.drop_drop, List.drop_left' List.length_reverse]
    rfl
  have hbytes : t.code.bytes = c.bytes := by
    rw [ht, CodeBuffer.bytes_pushType, hd.eq]
  refine carries_single h.toExtends (hc.appends.of_bytes hbytes) (fun q hq => ?_) ?_ ?_
  · rw [Frame.exec?_call (hq.kindAndMember? hi) hparams trivial rfl]
    rw [JType.untag, Frame.call_constructor hstack hos]
    simp [Operand.initialise]
  · rw [ht]
    refine ((hs.writes hc).popped hd).congr ?_ rfl
    rw [hdrop]
    rfl
  · rw [ht]
    change d.maxLocals = _
    rw [hd.eq]
    exact hc.maxLocals

/-- An object of a class is created, and its constructor is called with what is passed for its parameters. -/
theorem carries_construct {className : String} {constructor : MethodDecl} {exact : List Param} (he : s.pool.Fits)
    (hs : s.code.Tracks f) (hstack : f.stack = []) (hlocals : locals = localsFrom 0 (exact.map (·.type)))
    (haccepts : classes.accepts exact constructor.params = true) (hresult : constructor.result = .void)
    (hparams : ∀ type ∈ constructor.paramTypes, type.Plain) :
    Adds handles bootstraps (construct className constructor exact) s fun _ t => ∃ os peak,
      Operand.Passed classes 0 os constructor.paramTypes ∧
        Carries classes locals s f t
          { f with
            stack := [.value (.ofClass className) []]
            loads := f.loads ++ List.range' 0 exact.length
            created := f.created ++ [className]
            constructed := f.constructed ++ [(className, constructor.descriptor, os)]
            peak := peak } := by
  have hdescriptor : constructor.descriptor = methodDescriptor constructor.paramTypes .void := by
    rw [MethodDecl.descriptor, hresult]
  unfold construct
  rw [hdescriptor]
  refine Adds.bind (adds_inPool (Pool.adds_addClass className he)) ?_
  intro index s₁ h₁ hview
  obtain ⟨hcode₁, hindex⟩ := hview
  refine Adds.bind (adds_write _) ?_
  intro _ s₂ h₂ hview
  obtain ⟨hpool₂, hcode₂⟩ := hview
  rw [hcode₁] at hcode₂
  rw [← hpool₂] at hindex
  have hempty : Operand.slots f.stack = 0 := by
    rw [hstack]
    rfl
  have hc₂ : Carries classes locals s f s₂ (f.create className) :=
    carries_new (h₁.toExtends.trans h₂.toExtends) hindex hcode₂ hs (by omega)
  refine Adds.bind (adds_write _) ?_
  intro _ s₃ h₃ hview
  obtain ⟨hpool₃, hcode₃⟩ := hview
  have hone : Operand.slots (f.create className).stack = 1 := by
    simp [Frame.create, Frame.push, hstack, Operand.slots, Operand.width]
  have hc₃ : Carries classes locals s₂ (f.create className) s₃
      ((f.create className).push (.fresh f.created.length className)) :=
    carries_dup hpool₃ hcode₃ hc₂.tracks rfl rfl rfl (by omega)
  have hfresh : ((f.create className).push (.fresh f.created.length className)).stack =
      [.fresh f.created.length className, .fresh f.created.length className] := by
    simp [Frame.create, Frame.push, hstack]
  have he₃ := h₃.fits (h₂.fits (h₁.fits he))
  have hroom : Operand.slots ((f.create className).push (.fresh f.created.length className)).stack ≤ 2 := by
    rw [hfresh]
    simp [Operand.slots, Operand.width]
  refine Adds.bind (carries_pushArguments he₃ hc₃.tracks hlocals haccepts hroom) ?_
  intro _ s₄ h₄ hview
  obtain ⟨os, peak, hos, hc₄⟩ := hview
  change Adds handles bootstraps (invoke Opcode.invokespecial .method className WellKnown.constructor constructor.paramTypes .void) s₄ _
  -- the stack holds the arguments above the two references that `new` and `dup` left
  refine (carries_initialise locals (h₄.fits he₃) hc₄.tracks (congrArg (os.reverse ++ ·) hfresh) hos hparams).mono ?_
  rintro _ t - hc₅
  exact ⟨os, peak, hos, ((hc₂.trans hc₃).trans hc₄).trans hc₅⟩

/-! ## Bodies -/

/-- What a run of a factory made, by the type that the target stands for: one object, with the constructor that is resolved for the exact
parameters, or one array, with a size for each of them. -/
def Made (scope : Scope) (exact : List Param) (span : Span) (f : Frame) (returned : JType) : JType → Prop
  | .named _ className => f.allocated = [] ∧ f.created = [className] ∧ ∃ constructor os,
      scope.constructorFor className exact span = .ok constructor ∧
      f.constructed = [(className, constructor.descriptor, os)] ∧ Operand.Passed scope.classes 0 os constructor.paramTypes
  | .array _ => f.created = [] ∧ f.constructed = [] ∧ ∃ os,
      f.allocated = [(returned, os)] ∧ Operand.Passed scope.classes 0 os (List.replicate exact.length .int)
  | .prim _ => False
  | .void => False

variable {scope : Scope} {type : JType} {exact : List Param} {span : Span}

/-- The constructor of a registered class has parameters that descriptors can name, accepts the exact parameters and has no result. -/
theorem constructorOf_eq_ok {className : String} {constructor : MethodDecl} (hclasses : scope.classes.Describable)
    (h : constructorOf scope type className exact span = .ok constructor) :
    scope.constructorFor className exact span = .ok constructor ∧ scope.classes.accepts exact constructor.params = true ∧
      constructor.result = .void ∧ ∀ t ∈ constructor.paramTypes, t.Plain := by
  unfold constructorOf at h
  split at h
  · cases h
  · obtain ⟨decl, hdecl, hmem, hconstructor, haccepts⟩ := Scope.constructorFor_eq_ok h
    have hregistered := (ClassTable.aliasOf_of_underlying? hdecl).2
    obtain ⟨hresult, hparams⟩ := (hclasses decl.name decl hregistered).2 constructor hmem hconstructor
    exact ⟨h, haccepts, hresult, fun t ht => (hparams t ht).plain⟩

/-- The code of a factory, before its last instruction, makes what is asked for and leaves it alone on the stack. -/
theorem carries_make (he : s.pool.Fits) (hs : s.code.Tracks {}) (hclasses : scope.classes.Describable) (htype : type.Describable)
    (hcanonical : ∀ kind name, type = .named kind name → scope.classes.canonicalName name = name) :
    Adds handles bootstraps (make scope type exact span) s fun _ t => ∃ returned sources f,
      f.stack = [.value returned sources] ∧ returned ≈ type ∧ f.loads = List.range exact.length ∧
      Made scope exact span f returned type ∧ Carries scope.classes (localsFrom 0 (exact.map (·.type))) s {} t f := by
  unfold make
  cases type with
  | prim p => exact .refl
  | void => exact .refl
  | array c =>
    refine (carries_makeArray scope.classes he hs rfl rfl htype).mono ?_
    intro _ t _ hview
    obtain ⟨made, os, peak, hmade, hos, hc⟩ := hview
    exact ⟨made, _, _, rfl, hmade, List.range_eq_range'.symm, ⟨rfl, rfl, os, rfl, hos⟩, hc⟩
  | named kind className =>
    refine Adds.bind (Moves.answer .refl _) ?_
    intro constructor _ _ hview
    obtain ⟨rfl, hconstructor⟩ := hview
    obtain ⟨hresolved, haccepts, hresult, hparams⟩ := constructorOf_eq_ok hclasses hconstructor
    rw [hcanonical kind className rfl]
    refine (carries_construct he hs rfl rfl haccepts hresult hparams).mono ?_
    intro _ t _ hview
    obtain ⟨os, peak, hos, hc⟩ := hview
    refine ⟨_, _, _, rfl, ?_, List.range_eq_range'.symm, ⟨rfl, rfl, constructor, os, hresolved, rfl, hos⟩, hc⟩
    simp only [JType.equiv_def, JType.ofClass, JType.untag]

end Factory

end Linkage
