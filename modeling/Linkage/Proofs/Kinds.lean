import Linkage.Lowering.Basic
import Linkage.Proofs.ClassTable.Conversion
import Linkage.Proofs.ClassTable.Hierarchy

/-!
# Without kinds

The kind under which a named type was written is no part of the type: `untag` writes every named type as a class. What holds types, from a
parameter to a reference and from a fault to an outcome, is `withoutKinds` when each of its types is untagged. No text and no descriptor
shows a kind.
-/

namespace Linkage

namespace JType

/-- The kinds of named types have no part in the width. -/
@[simp] theorem width_untag (t : JType) : t.untag.width = t.width := by
  cases t <;> rfl

/-- The primitive type of a wrapper class is found by the name alone. -/
@[simp] theorem unboxed?_untag (t : JType) : t.untag.unboxed? = t.unboxed? := by
  cases t <;> rfl

/-- A primitive type stays what it is without kinds. -/
@[simp] theorem primitive?_untag (t : JType) : t.untag.primitive? = t.primitive? := by
  cases t <;> rfl

/-- Boxing gives a type without kinds a wrapper class, which is named as a class. -/
@[simp] theorem boxed_untag (t : JType) : t.untag.boxed = t.boxed.untag := by
  cases t <;> rfl

/-- The internal name of a type does not show its kind. -/
theorem internalName?_untag (t : JType) : t.untag.internalName? = t.internalName? := by
  cases t <;> rfl

/-- The component of an array loses the kinds in it. -/
theorem component?_untag (t : JType) : t.untag.component? = t.component?.map untag := by
  cases t <;> rfl

/-- Only the type without values is that type without kinds. -/
theorem untag_eq_void (t : JType) : t.untag = .void ↔ t = .void := by
  cases t <;> simp [untag]

/-- The pool holds types without their kinds. -/
theorem constantName_untag (t : JType) : t.untag.constantName = t.constantName := by
  rw [constantName, internalName?_untag, descriptor_untag, constantName]

/-- The array levels stay when kinds are left out. -/
theorem dimensions_untag (t : JType) : t.untag.dimensions = t.dimensions := by
  induction t with
  | array c ih => simp only [untag, dimensions, ih]
  | _ => rfl

/-- A message does not show the kind of a named type. -/
theorem render_untag (t : JType) : t.untag.render = t.render := by
  induction t with
  | array c ih => simp only [untag, render, ih]
  | _ => rfl

end JType

/-- A descriptor does not show the kinds of the types in it. -/
theorem methodDescriptor_untag (params : List JType) (result : JType) :
    methodDescriptor (params.map JType.untag) result.untag = methodDescriptor params result := by
  simp only [methodDescriptor, List.map_map, Function.comp_def, JType.descriptor_untag]

/-! ## Declarations -/

/-- The parameter with its types untagged. -/
def Param.untag (p : Param) : Param :=
  ⟨p.name, p.type.untag, p.origin.untag⟩

/-- The type of a parameter without kinds. -/
@[simp] theorem Param.type_untag (p : Param) : p.untag.type = p.type.untag :=
  rfl

/-- The types of untagged parameters. -/
theorem Param.map_type_untag (ps : List Param) : (ps.map Param.untag).map (·.type) = (ps.map (·.type)).map JType.untag := by
  rw [List.map_map, List.map_map]
  rfl

namespace MethodDecl

def withoutKinds (m : MethodDecl) : MethodDecl :=
  { m with params := m.params.map Param.untag, result := m.result.untag }

/-- The descriptor of a method does not show kinds. -/
theorem descriptor_withoutKinds (m : MethodDecl) : m.withoutKinds.descriptor = m.descriptor := by
  rw [descriptor, paramTypes, withoutKinds, Param.map_type_untag, methodDescriptor_untag, descriptor, paramTypes]

/-- Methods that differ in kinds only have one name and one descriptor. -/
theorem signature_congr {m n : MethodDecl} (h : m.withoutKinds = n.withoutKinds) : m.name = n.name ∧ m.descriptor = n.descriptor := by
  refine ⟨?_, by rw [← m.descriptor_withoutKinds, h, n.descriptor_withoutKinds]⟩
  injection h

end MethodDecl

def ClassDecl.withoutKinds (c : ClassDecl) : ClassDecl :=
  { c with methods := c.methods.map MethodDecl.withoutKinds }

/-! ## References -/

mutual

def Expr.withoutKinds : Expr → Expr
  | .this type span => .this type.untag span
  | .localVar name slot type span => .localVar name slot type.untag span
  | .literal value span => .literal value span
  | .staticField owner name type span => .staticField owner name type.untag span
  | .field target owner name type span => .field target.withoutKinds owner name type.untag span
  | .staticCall owner onInterface name params result args span =>
    .staticCall owner onInterface name (params.map JType.untag) result.untag (Expr.allWithoutKinds args) span
  | .call target owner onInterface name params result args span =>
    .call target.withoutKinds owner onInterface name (params.map JType.untag) result.untag (Expr.allWithoutKinds args) span

def Expr.allWithoutKinds : List Expr → List Expr
  | [] => []
  | e :: es => e.withoutKinds :: Expr.allWithoutKinds es

end

/-- The static type of an expression loses its kind with the expression. -/
@[simp] theorem Expr.type_withoutKinds (e : Expr) : e.withoutKinds.type = e.type.untag := by
  cases e with
  | literal value span => cases value <;> rfl
  | _ => rfl

/-- An expression without kinds stands where it stood. -/
@[simp] theorem Expr.span_withoutKinds (e : Expr) : e.withoutKinds.span = e.span := by
  cases e <;> rfl

/-- Leaving out kinds keeps the number of expressions. -/
@[simp] theorem Expr.length_allWithoutKinds (es : List Expr) : (Expr.allWithoutKinds es).length = es.length := by
  induction es with
  | nil => rfl
  | cons e es ih => rw [allWithoutKinds, List.length_cons, List.length_cons, ih]

namespace Target

def withoutKinds : Target → Target
  | type t span => type t.untag span
  | value e => value e.withoutKinds

/-- The static type of a target loses its kind with the target. -/
@[simp] theorem staticType_withoutKinds (target : Target) : target.withoutKinds.staticType = target.staticType.untag := by
  cases target with
  | type t span => rfl
  | value e => exact e.type_withoutKinds

/-- A target without kinds is a type if it was one. -/
@[simp] theorem isType_withoutKinds (target : Target) : target.withoutKinds.isType = target.isType := by
  cases target <;> rfl

/-- A target without kinds stands where it stood. -/
@[simp] theorem span_withoutKinds (target : Target) : target.withoutKinds.span = target.span := by
  cases target with
  | type t span => rfl
  | value e => exact e.span_withoutKinds

end Target

def Reference.withoutKinds (r : Reference) : Reference where
  target := r.target.withoutKinds
  member := r.member
  interface := r.interface.map JType.untag
  inferred := r.inferred.map (List.map (Option.map JType.untag))
  span := r.span

/-! ## Faults -/

def ShapeFault.withoutKinds : ShapeFault → ShapeFault
  | noMembers t => noMembers t.untag
  | creationOfValue => creationOfValue
  | notCreatable t => notCreatable t.untag
  | abstractType t => abstractType t.untag
  | missingSize t => missingSize t.untag
  | tooManySizes count => tooManySizes count
  | moreSizesThanDimensions count t => moreSizesThanDimensions count t.untag
  | sizeType t => sizeType t.untag
  | stated text => stated text

-- The equations of a message hold all its texts and are too large to rewrite with, so a text is taken apart where it shows a type.
/-- The message about a shape does not show kinds. -/
theorem ShapeFault.message_withoutKinds (what : ShapeFault) : what.withoutKinds.message = what.message := by
  cases what with
  | noMembers t => exact congrArg (_ ++ ·) t.render_untag
  | creationOfValue => rfl
  | notCreatable t => exact congrArg (_ ++ ·) t.render_untag
  | abstractType t => exact congrArg (_ ++ ·) t.render_untag
  | missingSize t => exact congrArg (· ++ _) t.render_untag
  | tooManySizes count => rfl
  | moreSizesThanDimensions count t =>
    change _ ++ toString t.untag.render ++ _ ++ toString t.untag.dimensions ++ _ =
      _ ++ toString t.render ++ _ ++ toString t.dimensions ++ _
    rw [t.render_untag, t.dimensions_untag]
  | sizeType t => exact congrArg (_ ++ ·) t.render_untag
  | stated text => rfl

def Defect.withoutKinds : Defect → Defect
  | inferredCount inferred interface method declared => inferredCount inferred interface.untag method declared
  | foreignContext contextClass fileClass => foreignContext contextClass fileClass
  | unregistered className => unregistered className
  | alreadyDeclared className method descriptor => alreadyDeclared className method descriptor
  | noUnboxing source target => noUnboxing source.untag target.untag
  | noWidening source target => noWidening source target
  | stated text => stated text

/-- The message about a defect does not show kinds. -/
theorem Defect.message_withoutKinds (what : Defect) : what.withoutKinds.message = what.message := by
  cases what with
  | inferredCount inferred interface method declared =>
    change _ ++ toString interface.untag.render ++ _ ++ _ ++ _ ++ _ = _ ++ toString interface.render ++ _ ++ _ ++ _ ++ _
    rw [interface.render_untag]
  | noUnboxing source target =>
    change _ ++ toString source.untag.render ++ _ ++ toString target.untag.render =
      _ ++ toString source.render ++ _ ++ toString target.render
    rw [source.render_untag, target.render_untag]
  | _ => rfl

namespace Fault

def withoutKinds : Fault → Fault
  | unresolved member params target span => unresolved member (params.map JType.untag) target.untag span
  | shape what span => shape what.withoutKinds span
  | receiverType receiver target span => receiverType receiver.untag target.untag span
  | inferredType inferred declared span => inferredType inferred.untag declared.untag span
  | notFunctional type span => notFunctional type.untag span
  | file fault => file fault
  | settings fault => settings fault
  | defect what span => defect what.withoutKinds span

/-- The list of types that a message shows does not show kinds. -/
theorem typeNames_untag (types : List JType) : typeNames (types.map JType.untag) = typeNames types := by
  simp only [typeNames, List.map_map, Function.comp_def, JType.render_untag]

/-- No message shows kinds. -/
theorem message_withoutKinds (f : Fault) : f.withoutKinds.message = f.message := by
  cases f with
  | unresolved member params target span =>
    change _ ++ toString (typeNames (params.map JType.untag)) ++ _ ++ toString target.untag.render ++ _ =
      _ ++ toString (typeNames params) ++ _ ++ toString target.render ++ _
    rw [typeNames_untag, target.render_untag]
  | shape what span =>
    change _ ++ toString what.withoutKinds.message = _ ++ toString what.message
    rw [what.message_withoutKinds]
  | receiverType receiver target span =>
    change _ ++ toString receiver.untag.render ++ _ ++ toString target.untag.render =
      _ ++ toString receiver.render ++ _ ++ toString target.render
    rw [receiver.render_untag, target.render_untag]
  | inferredType inferred declared span =>
    change _ ++ toString inferred.untag.render ++ _ ++ toString declared.untag.render ++ _ =
      _ ++ toString inferred.render ++ _ ++ toString declared.render ++ _
    rw [inferred.render_untag, declared.render_untag]
  | notFunctional type span =>
    change _ ++ toString type.untag.render ++ _ = _ ++ toString type.render ++ _
    rw [type.render_untag]
  | file fault => rfl
  | settings fault => rfl
  | defect what span =>
    cases span with
    | none => exact congrArg (_ ++ ·) what.message_withoutKinds
    | some span =>
      change _ ++ toString what.withoutKinds.message = _ ++ toString what.message
      rw [what.message_withoutKinds]

/-- Faults that differ in kinds only have one text. -/
theorem message_congr {f g : Fault} (h : f.withoutKinds = g.withoutKinds) : f.message = g.message := by
  rw [← f.message_withoutKinds, h, g.message_withoutKinds]

end Fault

/-! ## Outcomes -/

def Binding.withoutKinds (b : Binding) : Binding :=
  { b with method := b.method.withoutKinds, owner := b.owner.untag, exact := b.exact.map Param.untag }

def Linked.withoutKinds (l : Linked) : Linked :=
  { l with binding := l.binding.withoutKinds, factory := l.factory.map MethodDecl.withoutKinds }

def FallbackReason.withoutKinds : FallbackReason → FallbackReason
  | missingInterface => missingInterface
  | notFunctional type => notFunctional type.untag
  | missingInferredTypes => missingInferredTypes

def Outcome.withoutKinds : Outcome → Outcome
  | linked result => linked result.withoutKinds
  | fallback reason => fallback reason.withoutKinds

/-- The workspaces are the same but for the kinds of types that registered methods have. -/
structure Workspace.SameButKinds (w v : Workspace) : Prop where
  file : w.file = v.file
  code : w.code = v.code
  names : w.names = v.names
  classes : w.classes.LooksLike ClassDecl.withoutKinds v.classes

/-- A workspace differs from itself in no kind. -/
theorem Workspace.SameButKinds.refl (w : Workspace) : w.SameButKinds w :=
  ⟨rfl, rfl, rfl, fun _ => rfl⟩

end Linkage
