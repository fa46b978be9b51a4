import Linkage.JType

/-!
# Descriptors

The compact form in which a class file names field types and method types.
-/

namespace Linkage

namespace JType

/-- The descriptor of a type. -/
def descriptor : JType → String
  | prim p => p.letter.toString
  | named _ n => "L" ++ n ++ ";"
  | array c => "[" ++ c.descriptor
  | void => "V"

/-- The name under which the constant pool holds a type: the internal name of a class or interface, else the descriptor. -/
def constantName (t : JType) : String :=
  t.internalName?.getD t.descriptor

end JType

/-- The descriptor of a method that takes `params` and returns `result`. -/
def methodDescriptor (params : List JType) (result : JType) : String :=
  "(" ++ String.join (params.map JType.descriptor) ++ ")" ++ result.descriptor

namespace JType

/-- A descriptor does not show the kind of a named type. -/
theorem descriptor_untag (t : JType) : t.untag.descriptor = t.descriptor := by
  induction t with
  | prim p => rfl
  | named k n => rfl
  | array c ih => simp [untag, descriptor, ih]
  | void => rfl

/-- Types that differ in kinds only have one descriptor. -/
theorem descriptor_congr {a b : JType} (h : a ≈ b) : a.descriptor = b.descriptor := by
  rw [← a.descriptor_untag, ← b.descriptor_untag, equiv_def.mp h]

end JType

end Linkage
