import Linkage.Emission.Basic

/-!
# Code of conversions

A value passed for a parameter of another type is boxed, unboxed or widened. A reference passed for a reference stays as it is.
-/

namespace Linkage

namespace Emit

/-- Widens the primitive value on top of the stack. -/
def widening (source target : Primitive) : Emit Unit :=
  if source = target || (source.computesAsInt && target.computesAsInt) then pure ()
  else match Opcode.widening? source target with
    | none => throw (.defect (.noWidening source target) none)
    | some opcode => do
      write (·.emitOp opcode)
      inCode (CodeBuffer.pop 1)
      write (·.pushType (.prim target))

/-- Boxes the primitive value on top of the stack. -/
def boxing (p : Primitive) : Emit Unit :=
  invoke Opcode.invokestatic .method p.wrapper WellKnown.boxing [.prim p] (.ofClass p.wrapper)

/-- Converts the value on top of the stack from one type to another. -/
def convert (source target : JType) : Emit Unit :=
  if source ≈ target then pure ()
  else match source, target with
    | .prim p, .prim q => widening p q
    | .prim p, .named _ _ => boxing p
    | .prim p, .array _ => boxing p
    | .named _ owner, .prim q =>
      match Primitive.ofWrapper? owner with
      | none => throw (.defect (.noUnboxing source target) none)
      | some p => do
        invoke Opcode.invokevirtual .method owner p.unboxing [] (.prim p)
        widening p q
    | .array _, .prim _ => throw (.defect (.noUnboxing source target) none)
    | _, _ => pure ()

end Emit

end Linkage
