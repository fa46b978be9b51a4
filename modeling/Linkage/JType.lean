import Linkage.Primitive
import Linkage.WellKnown

/-!
# Java types

A type is primitive, named, an array or `void`. A named type carries the kind under which it was written, but the kind is no part
of its identity: `a ≈ b` compares types without it, and every decision of the library goes through `≈`.
-/

namespace Linkage

/-- The kind under which a named type was written. -/
inductive NamedKind where
  | ofClass
  | ofInterface
  deriving DecidableEq

/-- A Java type, or `void` in the place of a result type. -/
inductive JType where
  | prim (primitive : Primitive)
  | named (kind : NamedKind) (name : String)
  | array (component : JType)
  | void
  deriving DecidableEq

namespace JType

/-- The class type of an internal name. -/
def ofClass (name : String) : JType :=
  .named .ofClass name

/-- The interface type of an internal name. -/
def ofInterface (name : String) : JType :=
  .named .ofInterface name

def boolean : JType :=
  .prim .boolean

def int : JType :=
  .prim .int

def object : JType :=
  ofClass WellKnown.object

def string : JType :=
  ofClass WellKnown.string

/-- The type with every named type in it written as a class. -/
def untag : JType → JType
  | prim p => prim p
  | named _ n => named .ofClass n
  | array c => array c.untag
  | void => void

/-- Types are the same when they differ in the kinds of named types only. -/
instance : Setoid JType where
  r a b := a.untag = b.untag
  iseqv := ⟨fun _ => rfl, Eq.symm, Eq.trans⟩

instance (a b : JType) : Decidable (a ≈ b) :=
  inferInstanceAs (Decidable (a.untag = b.untag))

/-- Sameness, as an equation. -/
@[simp] theorem equiv_def {a b : JType} : a ≈ b ↔ a.untag = b.untag :=
  Iff.rfl

/-- The internal name of a class or interface type. -/
def internalName? : JType → Option String
  | named _ n => some n
  | _ => none

def isPrimitive : JType → Bool
  | prim _ => true
  | _ => false

def isReference : JType → Bool
  | named _ _ => true
  | array _ => true
  | _ => false

def isArray : JType → Bool
  | array _ => true
  | _ => false

def primitive? : JType → Option Primitive
  | prim p => some p
  | _ => none

/-- The number of array levels around the innermost component. -/
def dimensions : JType → Nat
  | array c => c.dimensions + 1
  | _ => 0

/-- The component type of an array type, one level down. -/
def component? : JType → Option JType
  | array c => some c
  | _ => none

/-- The wrapper class of a primitive type; any other type itself. -/
def boxed : JType → JType
  | prim p => ofClass p.wrapper
  | t => t

/-- The primitive type that a wrapper class holds. -/
def unboxed? (t : JType) : Option Primitive :=
  t.internalName?.bind Primitive.ofWrapper?

/-- The number of stack or local slots a value of the type takes. -/
def width : JType → Nat
  | prim p => p.width
  | named _ _ => 1
  | array _ => 1
  | void => 0

/-- An internal name as it is written in a source text. -/
def sourceName (internalName : String) : String :=
  String.ofList (internalName.toList.map fun c => if c = '/' then '.' else c)

/-- A type as it is written in a source text. -/
def render : JType → String
  | prim p => p.name
  | named _ n => sourceName n
  | array c => c.render ++ "[]"
  | void => "void"

end JType

end Linkage
