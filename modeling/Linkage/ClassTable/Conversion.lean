import Linkage.ClassTable.Walk

/-!
# Conversions

Which types are subtypes of which, and which values a parameter accepts: a subtype, a widened primitive, a boxed primitive or an
unboxed and then widened wrapper.
-/

namespace Linkage

namespace ClassTable

/-- Whether a value of the first type is one of the second without boxing or widening. -/
def isSubtype (t : ClassTable) (source target : JType) : Bool :=
  source ≈ target ||
    match source, target with
    | .array c, .array d => c.isReference && d.isReference && t.isSubtype c d
    | .array _, .named _ n => n ∈ WellKnown.arraySupertypes
    | .named _ m, .named _ n => t.canonicalName n = WellKnown.object || t.canonicalName n ∈ t.supertypes m
    | _, _ => false

/-- Whether a value of the first type may be passed where the second is declared. -/
def isAssignable (t : ClassTable) (source target : JType) : Bool :=
  t.isSubtype source target ||
    match source, target with
    | .prim p, .prim q => p.widensTo q
    | .prim p, .named _ _ => t.isSubtype (JType.prim p).boxed target
    | .prim p, .array _ => t.isSubtype (JType.prim p).boxed target
    | .named _ n, .prim q => (Primitive.ofWrapper? n).any fun p => p = q || p.widensTo q
    | _, _ => false

/-- Whether arguments of the first list may be passed for parameters of the second: the same number, slot by slot assignable. -/
def accepts (t : ClassTable) : List Param → List Param → Bool
  | [], [] => true
  | arg :: args, param :: params => t.isAssignable arg.type param.type && t.accepts args params
  | _, _ => false

end ClassTable

end Linkage
