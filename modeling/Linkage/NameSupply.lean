/-!
# Names of synthetic members

Factories of one enclosing type are numbered in one sequence, whatever method they are made for, so their names differ.
-/

namespace Linkage

/-- The names still to be given to synthetic members of one type. -/
structure NameSupply where
  /-- The internal name of the type. -/
  owner : String
  /-- The number of names given out. -/
  count : UInt32 := 0
  deriving DecidableEq

namespace NameSupply

/-- The start of every name of a factory. -/
def factoryStart : String :=
  "ctorRef$"

/-- The name of the factory with a number, made inside a method or outside of all. The angle brackets of a method's name are left
out. -/
def factoryName (method : Option String) (number : UInt32) : String :=
  match method with
  | some name => factoryStart ++ String.ofList (name.toList.filter fun c => c ≠ '<' && c ≠ '>') ++ "$" ++ toString number
  | none => factoryStart ++ toString number

/-- The next name, and the names that are left. -/
def next (s : NameSupply) (method : Option String) : String × NameSupply :=
  (factoryName method s.count, { s with count := s.count + 1 })

end NameSupply

end Linkage
