import Linkage.JType
import Linkage.Source

/-!
# Receiver expressions

The expressions that may stand in front of `::` in a reference, each with the static type that the type checker gave it.
-/

namespace Linkage

/-- A literal. -/
inductive Literal where
  | integer (value : Int32)
  | text (value : String)
  | null
  deriving DecidableEq

/-- The static type of a literal. -/
def Literal.type : Literal → JType
  | integer _ => .int
  | text _ => .string
  | null => .object

/-- A receiver expression. Fields and calls without a target are static. -/
inductive Expr where
  | this (type : JType) (span : Span)
  | localVar (name : String) (slot : Nat) (type : JType) (span : Span)
  | literal (value : Literal) (span : Span)
  | staticField (owner name : String) (type : JType) (span : Span)
  | field (target : Expr) (owner name : String) (type : JType) (span : Span)
  | staticCall (owner : String) (onInterface : Bool) (name : String) (params : List JType) (result : JType) (args : List Expr)
      (span : Span)
  | call (target : Expr) (owner : String) (onInterface : Bool) (name : String) (params : List JType) (result : JType)
      (args : List Expr) (span : Span)

namespace Expr

/-- The static type of an expression. -/
def type : Expr → JType
  | this t _ => t
  | localVar _ _ t _ => t
  | literal v _ => v.type
  | staticField _ _ t _ => t
  | field _ _ _ t _ => t
  | staticCall _ _ _ _ result _ _ => result
  | call _ _ _ _ _ result _ _ => result

/-- Where the expression stands. -/
def span : Expr → Span
  | this _ s => s
  | localVar _ _ _ s => s
  | literal _ s => s
  | staticField _ _ _ s => s
  | field _ _ _ _ s => s
  | staticCall _ _ _ _ _ _ s => s
  | call _ _ _ _ _ _ _ s => s

end Expr

end Linkage
