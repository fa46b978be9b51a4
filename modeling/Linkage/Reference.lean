import Linkage.Expr

/-!
# Method references

`Type::member`, `expr::member` and `Type::new`, with what the type checker inferred for them: the functional interface that the
reference implements and the types of its parameters. Either may be missing.
-/

namespace Linkage

/-- What stands in front of `::`. -/
inductive Target where
  | type (type : JType) (span : Span)
  | value (expr : Expr)

namespace Target

/-- The named type, or the static type of the expression. -/
def staticType : Target → JType
  | type t _ => t
  | value e => e.type

def isType : Target → Bool
  | type _ _ => true
  | value _ => false

def span : Target → Span
  | type _ s => s
  | value e => e.span

end Target

/-- A method reference. A missing inferred type leaves the parameter type that the interface declares. -/
structure Reference where
  target : Target
  member : String
  interface : Option JType
  inferred : Option (List (Option JType))
  span : Span

namespace Reference

/-- Whether the reference is to a constructor. -/
def isCreation (r : Reference) : Bool :=
  r.member = WellKnown.creation

/-- A reference as a message shows it; of an expression it shows the static type. -/
def render (r : Reference) : String :=
  match r.target with
  | .type t _ => t.render ++ "::" ++ r.member
  | .value e => "<" ++ e.type.render ++ ">::" ++ r.member

end Reference

end Linkage
