/-!
# Well-known names

Internal names of the platform types that resolution and emission treat specially, and the member names with a meaning of
their own.
-/

namespace Linkage

namespace WellKnown

def object : String :=
  "java/lang/Object"

def string : String :=
  "java/lang/String"

def number : String :=
  "java/lang/Number"

def cloneable : String :=
  "java/lang/Cloneable"

def serializable : String :=
  "java/io/Serializable"

def charSequence : String :=
  "java/lang/CharSequence"

def comparable : String :=
  "java/lang/Comparable"

/-- The supertypes that every array type has. -/
def arraySupertypes : List String :=
  [object, cloneable, serializable]

/-- The name under which a class declares its constructors. -/
def constructor : String :=
  "<init>"

/-- The member name of a reference to a constructor. -/
def creation : String :=
  "new"

/-- The static method by which a wrapper class boxes a primitive value. -/
def boxing : String :=
  "valueOf"

/-- Public methods of the root class, as name and descriptor. An interface may redeclare them without giving up its single
abstract method. -/
def objectMethods : List (String × String) :=
  [("equals", "(Ljava/lang/Object;)Z"), ("hashCode", "()I"), ("toString", "()Ljava/lang/String;")]

/-- Whether the root class has a public method of this name and descriptor. -/
def isObjectMethod (name descriptor : String) : Bool :=
  (name, descriptor) ∈ objectMethods

end WellKnown

end Linkage
