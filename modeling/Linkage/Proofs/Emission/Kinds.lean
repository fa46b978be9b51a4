import Linkage.Proofs.Resolution.Kinds

/-!
# Emission without kinds

The kind under which a type was written leaves no trace in code: descriptors do not show it, nor do the entries of the operand stack. A
receiver is written by the same code whatever the kinds of its types (`Expr.emit_withoutKinds`), and so is the body of a factory, but for
what its faults show (`Factory.indistinct_body_untag`).
-/

namespace Linkage

open Emit

/-- The tracked entry of a type does not depend on kinds. -/
theorem StackType.ofType?_untag (t : JType) : ofType? t.untag = ofType? t := by
  cases t with
  | prim p => rfl
  | void => rfl
  | named k n => rfl
  | array c =>
    change some (object (JType.array c).untag.descriptor) = some (object (JType.array c).descriptor)
    rw [JType.descriptor_untag]

namespace CodeBuffer

/-- What is pushed for a type does not depend on kinds. -/
theorem pushType_untag (b : CodeBuffer) (t : JType) : b.pushType t.untag = b.pushType t := by
  rw [pushType, StackType.ofType?_untag, pushType]

/-- A load does not depend on kinds. -/
theorem load_untag (t : JType) (slot : Nat) : load t.untag slot = load t slot := by
  unfold load
  simp only [pushType_untag]
  cases t <;> rfl

/-- The slots of types do not depend on their kinds. -/
theorem slots_untag (types : List JType) : slots (types.map JType.untag) = slots types := by
  simp only [slots, List.foldr_map, JType.width_untag]

end CodeBuffer

namespace Emit

/-- The value of a field is pushed without regard to kinds. -/
theorem pushField_untag (owner name : String) (type : JType) : pushField owner name type.untag = pushField owner name type := by
  rw [pushField, StackType.ofType?_untag, pushField]

/-- The check of a call does not depend on kinds. -/
theorem checkCall_withoutKinds (owner name : String) (params : List JType) (result : JType) (args : List Expr) :
    checkCall owner name (params.map JType.untag) result.untag (Expr.allWithoutKinds args) = checkCall owner name params result args := by
  simp only [checkCall, JType.untag_eq_void, Expr.length_allWithoutKinds, List.length_map]

/-- The code of a call does not depend on kinds. -/
theorem invoke_untag (opcode : UInt8) (kind : MemberKind) (owner name : String) (params : List JType) (result : JType) :
    invoke opcode kind owner name (params.map JType.untag) result.untag = invoke opcode kind owner name params result := by
  simp only [invoke, methodDescriptor_untag, CodeBuffer.invoke, CodeBuffer.slots_untag, CodeBuffer.pushType_untag, List.length_map]

/-- A value is converted to another type by the same code, under whatever kinds its own type is written. -/
theorem indistinct_convert_untag (source target : JType) :
    Indistinct Fault.withoutKinds (convert source.untag target) (convert source target) := by
  unfold convert
  simp only [JType.equiv_def, JType.untag_untag]
  split
  · exact .refl _ _
  · cases source with
    | prim p => exact .refl _ _
    | void => exact .refl _ _
    | named k owner =>
      cases target with
      | prim q =>
        simp only [JType.untag]
        cases Primitive.ofWrapper? owner with
        | none => exact .throw rfl
        | some p => exact .refl _ _
      | void => exact .refl _ _
      | named l name => exact .refl _ _
      | array d => exact .refl _ _
    | array c =>
      cases target with
      | prim q => exact .throw (by simp only [Fault.withoutKinds, Defect.withoutKinds, JType.untag_untag])
      | void => exact .refl _ _
      | named l name => exact .refl _ _
      | array d => exact .refl _ _

end Emit

/-! ## Receivers -/

mutual

/-- The code of an expression does not show under which kinds its types were written. -/
theorem Expr.emit_withoutKinds (e : Expr) : e.withoutKinds.emit = e.emit := by
  cases e with
  | this type span => simp only [withoutKinds, emit, CodeBuffer.load_untag]
  | localVar name slot type span => simp only [withoutKinds, emit, CodeBuffer.load_untag]
  | literal value span => rw [withoutKinds]
  | staticField owner name type span => simp only [withoutKinds, emit, JType.descriptor_untag, pushField_untag]
  | field target owner name type span =>
    simp only [withoutKinds, emit, JType.descriptor_untag, pushField_untag, target.emit_withoutKinds]
  | staticCall owner onInterface name params result args span =>
    simp only [withoutKinds, emit, checkCall_withoutKinds, invoke_untag, Expr.emitAll_withoutKinds args]
  | call target owner onInterface name params result args span =>
    simp only [withoutKinds, emit, checkCall_withoutKinds, invoke_untag, target.emit_withoutKinds, Expr.emitAll_withoutKinds args]

/-- The code of expressions in a row does not depend on kinds. -/
theorem Expr.emitAll_withoutKinds (es : List Expr) : Expr.emitAll (Expr.allWithoutKinds es) = Expr.emitAll es := by
  cases es with
  | nil => rfl
  | cons e es => rw [Expr.allWithoutKinds, emitAll, emitAll, e.emit_withoutKinds, Expr.emitAll_withoutKinds es]

end

/-! ## Factories -/

namespace Factory

/-- Whether a type is a size does not depend on kinds. -/
theorem isSizeType_untag (t : JType) : isSizeType t.untag = isSizeType t := by
  rw [isSizeType, JType.primitive?_untag, JType.unboxed?_untag, isSizeType]

/-- The sizes of an array are pushed without regard to kinds. -/
theorem indistinct_pushSizes_untag (span : Span) (slot : Nat) (ps : List Param) :
    Indistinct Fault.withoutKinds (pushSizes span slot (ps.map Param.untag)) (pushSizes span slot ps) := by
  induction ps generalizing slot with
  | nil => exact .refl _ _
  | cons p ps ih =>
    rw [List.map_cons, pushSizes, pushSizes, Param.type_untag, isSizeType_untag, CodeBuffer.load_untag, JType.width_untag]
    have hsize := Indistinct.after (inCode (CodeBuffer.load p.type slot)) fun _ =>
      (indistinct_convert_untag p.type .int).bind fun _ => ih (slot + p.type.width)
    split
    · refine Indistinct.bind (.throw ?_) fun _ => hsize
      simp only [Fault.withoutKinds, ShapeFault.withoutKinds, JType.untag_untag]
    · exact hsize

/-- The check of the number of sizes finds the same, kinds apart. -/
theorem checkSizes_untag (type : JType) (count : Nat) :
    (checkSizes type.untag count).mapError ShapeFault.withoutKinds = (checkSizes type count).mapError ShapeFault.withoutKinds := by
  unfold checkSizes
  rw [JType.dimensions_untag]
  split
  · simp only [Except.mapError, ShapeFault.withoutKinds, JType.untag_untag]
  · split
    · rfl
    · split
      · simp only [Except.mapError, ShapeFault.withoutKinds, JType.untag_untag]
      · rfl

/-- An array is allocated without regard to kinds. -/
theorem allocate_untag (type : JType) (count : Nat) : allocate type.untag count = allocate type count := by
  unfold allocate
  rw [JType.component?_untag, JType.constantName_untag]
  cases type.component? with
  | none => rfl
  | some c =>
    match count with
    | 0 => cases c <;> rfl
    | 1 =>
      cases c with
      | array d =>
        have hname : (JType.array d.untag).constantName = (JType.array d).constantName := (JType.array d).constantName_untag
        simp only [Option.map_some, JType.untag, hname]
      | _ => rfl
    | count + 2 => cases c <;> rfl

/-- An array is made without regard to kinds. -/
theorem indistinct_makeArray_untag (type : JType) (exact : List Param) (span : Span) :
    Indistinct Fault.withoutKinds (makeArray type.untag (exact.map Param.untag) span) (makeArray type exact span) := by
  unfold makeArray
  rw [List.length_map, allocate_untag]
  refine Indistinct.bind (.answer ?_) fun _ => (indistinct_pushSizes_untag span 0 exact).bind fun _ => .refl _ _
  have hsizes := checkSizes_untag type exact.length
  revert hsizes
  cases checkSizes type.untag exact.length <;> cases checkSizes type exact.length <;> simp_all [Except.mapError, Fault.withoutKinds]

/-- Arguments are converted and pushed without regard to kinds. -/
theorem indistinct_pushArguments_untag (slot : Nat) (args params : List Param) :
    Indistinct Fault.withoutKinds (pushArguments slot (args.map Param.untag) params) (pushArguments slot args params) := by
  induction args generalizing slot params with
  | nil => exact .refl _ _
  | cons arg args ih =>
    cases params with
    | nil => exact .refl _ _
    | cons param params =>
      rw [List.map_cons, pushArguments, pushArguments, Param.type_untag, CodeBuffer.load_untag, JType.width_untag]
      refine .after _ fun _ => ?_
      exact (indistinct_convert_untag arg.type param.type).bind fun _ => ih _ params

/-- An instance is constructed without regard to kinds. -/
theorem indistinct_construct_untag (className : String) (constructor : MethodDecl) (exact : List Param) :
    Indistinct Fault.withoutKinds (construct className constructor (exact.map Param.untag)) (construct className constructor exact) := by
  unfold construct
  refine .after _ fun _ => .after _ fun _ => .after _ fun _ => ?_
  exact (indistinct_pushArguments_untag 0 exact constructor.params).bind fun _ => .refl _ _

/-- The constructor that is found, or the fault, does not depend on kinds. -/
theorem constructorOf_untag (s : Scope) (type : JType) (className : String) (exact : List Param) (span : Span) :
    (constructorOf s type.untag className (exact.map Param.untag) span).mapError Fault.withoutKinds =
      (constructorOf s type className exact span).mapError Fault.withoutKinds := by
  unfold constructorOf
  split
  · simp only [Except.mapError, Fault.withoutKinds, ShapeFault.withoutKinds, JType.untag_untag]
  · exact s.constructorFor_untag className exact span

/-- What a factory makes does not depend on kinds. -/
theorem indistinct_make_untag (s : Scope) (type : JType) (exact : List Param) (span : Span) :
    Indistinct Fault.withoutKinds (make s type.untag (exact.map Param.untag) span) (make s type exact span) := by
  cases type with
  | prim p => exact .refl _ _
  | void => exact .refl _ _
  | array c => exact indistinct_makeArray_untag (.array c) exact span
  | named k className =>
    refine Indistinct.bind (.answer (constructorOf_untag s (.named k className) className exact span)) fun constructor => ?_
    exact indistinct_construct_untag _ constructor exact

/-- The return instruction does not depend on kinds. -/
theorem emitReturn_untag (type : JType) : CodeBuffer.emitReturn type.untag = CodeBuffer.emitReturn type := by
  have hopcode : Opcode.returnOf type.untag = Opcode.returnOf type := by cases type <;> rfl
  simp only [CodeBuffer.emitReturn, hopcode, JType.untag_eq_void]

/-- A factory has the same body when its types differ in kinds only, or cannot be written for the same fault. -/
theorem indistinct_body_untag (s : Scope) (type : JType) (exact : List Param) (span : Span) :
    Indistinct Fault.withoutKinds (body s type.untag (exact.map Param.untag) span) (body s type exact span) := by
  unfold body
  rw [Param.map_type_untag, CodeBuffer.slots_untag, emitReturn_untag]
  refine .after _ fun _ => ?_
  exact (indistinct_make_untag s type exact span).bind fun _ => .refl _ _

end Factory

end Linkage
