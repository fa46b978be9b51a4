/-!
# Primitive types

The eight primitive types with their names, descriptor letters, wrapper classes, slot widths and widening conversions.
-/

namespace Linkage

/-- A primitive type. -/
inductive Primitive where
  | boolean
  | char
  | byte
  | short
  | int
  | long
  | float
  | double
  deriving DecidableEq

namespace Primitive

/-- The primitive types, each once. -/
def all : List Primitive :=
  [boolean, char, byte, short, int, long, float, double]

/-- The keyword that names the type. -/
def name : Primitive → String
  | boolean => "boolean"
  | char => "char"
  | byte => "byte"
  | short => "short"
  | int => "int"
  | long => "long"
  | float => "float"
  | double => "double"

/-- The letter that stands for the type in a descriptor. -/
def letter : Primitive → Char
  | boolean => 'Z'
  | char => 'C'
  | byte => 'B'
  | short => 'S'
  | int => 'I'
  | long => 'J'
  | float => 'F'
  | double => 'D'

/-- The internal name of the class whose objects hold one value of the type. -/
def wrapper : Primitive → String
  | boolean => "java/lang/Boolean"
  | char => "java/lang/Character"
  | byte => "java/lang/Byte"
  | short => "java/lang/Short"
  | int => "java/lang/Integer"
  | long => "java/lang/Long"
  | float => "java/lang/Float"
  | double => "java/lang/Double"

/-- The type whose wrapper class has this internal name. -/
def ofWrapper? (className : String) : Option Primitive :=
  all.find? fun p => p.wrapper = className

/-- The type that a keyword names. -/
def ofName? (keyword : String) : Option Primitive :=
  all.find? fun p => p.name = keyword

/-- The method of the wrapper class that returns the held value. -/
def unboxing (p : Primitive) : String :=
  p.name ++ "Value"

/-- The number of stack or local slots a value of the type takes. -/
def width : Primitive → Nat
  | long => 2
  | double => 2
  | _ => 1

/-- Whether the machine computes with values of the type as `int`. -/
def computesAsInt : Primitive → Bool
  | boolean => true
  | char => true
  | byte => true
  | short => true
  | int => true
  | _ => false

/-- The types that a value widens to without a cast, the type itself excluded. -/
def widerTypes : Primitive → List Primitive
  | byte => [short, int, long, float, double]
  | short => [int, long, float, double]
  | char => [int, long, float, double]
  | int => [long, float, double]
  | long => [float, double]
  | float => [double]
  | boolean => []
  | double => []

/-- Whether a value of the first type widens to the second without a cast; no type widens to itself. -/
def widensTo (p q : Primitive) : Bool :=
  q ∈ p.widerTypes

/-- No primitive type is missing from the list. -/
theorem mem_all (p : Primitive) : p ∈ all := by
  cases p <;> decide

/-- A primitive type is found by its wrapper. -/
@[simp] theorem ofWrapper?_wrapper (p : Primitive) : ofWrapper? p.wrapper = some p := by
  cases p <;> decide

end Primitive

end Linkage
