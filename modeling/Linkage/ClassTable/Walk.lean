import Std.Data.TreeSet
import Linkage.ClassTable.Basic

/-!
# Walks through the hierarchy

The chain of superclasses of a name and all its supertypes in breadth-first order. Both walks name a type at most once and stop
after `hierarchyLimit` names, so cyclic and endless hierarchies end them too.
-/

namespace Linkage

namespace ClassTable

/-- The number of names after which a walk stops. -/
def hierarchyLimit : Nat :=
  10000

/-- The superclass that the declaration behind a name states, as it states it. -/
def superclass? (t : ClassTable) (name : String) : Option String :=
  (t.underlying? name).bind (·.superclass)

/-- Climbs from a name along the stated superclasses; ends at the first name seen before. -/
def climb (t : ClassTable) : Nat → Std.TreeSet String → String → List String
  | 0, _, _ => []
  | steps + 1, seen, name =>
    if name ∈ seen then []
    else name :: (match t.superclass? name with
      | none => []
      | some parent => t.climb steps (seen.insert name) parent)

/-- The name that a name stands for, its superclass, the superclass of that, and so on. -/
def lineage (t : ClassTable) (name : String) : List String :=
  t.climb hierarchyLimit {} (t.canonicalName name)

/-- The names one step above a name: the superclass as stated, then what the stated interfaces stand for. -/
def parents (t : ClassTable) (name : String) : List String :=
  match t.underlying? name with
  | none => []
  | some decl => decl.superclass.toList ++ decl.interfaces.map t.canonicalName

/-- Visits the names of a queue breadth first, each at its first turn only. -/
def visit (t : ClassTable) : Nat → Std.TreeSet String → List String → List String
  | 0, _, _ => []
  | steps + 1, seen, queue =>
    match queue.dropWhile (· ∈ seen) with
    | [] => []
    | name :: rest => name :: t.visit steps (seen.insert name) (rest ++ t.parents name)

/-- The name that a name stands for and every supertype of it, breadth first. -/
def supertypes (t : ClassTable) (name : String) : List String :=
  t.visit hierarchyLimit {} [t.canonicalName name]

end ClassTable

end Linkage
