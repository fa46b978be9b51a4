import Linkage.ClassTable.Walk

/-!
# Members of a hierarchy

The methods of a name that a type has by itself or by inheritance. A method declared lower in the hierarchy hides those with the
same parameter types above it.
-/

namespace Linkage

/-- The members of a list that no earlier one is the same as. -/
def firstOfEach {α : Type} (same : α → α → Bool) : List α → List α
  | [] => []
  | x :: xs => x :: (firstOfEach same xs).filter fun y => !same x y

/-- What is kept of a list stands in the order of the list. -/
theorem firstOfEach_sublist {α : Type} (same : α → α → Bool) (xs : List α) : (firstOfEach same xs).Sublist xs := by
  induction xs with
  | nil => exact List.Sublist.slnil
  | cons x xs ih => exact (List.filter_sublist.trans ih).cons_cons x

/-- No member that is kept is the same as an earlier one. -/
theorem pairwise_firstOfEach {α : Type} (same : α → α → Bool) (xs : List α) :
    (firstOfEach same xs).Pairwise fun x y => same x y = false := by
  induction xs with
  | nil => exact List.Pairwise.nil
  | cons x xs ih =>
    refine List.Pairwise.cons ?_ (ih.filter _)
    intro y hy
    simpa using (List.mem_filter.mp hy).2

namespace ClassTable

/-- The names in which members are searched: the superclass chain, then the remaining supertypes. -/
def memberOrder (t : ClassTable) (name : String) : List String :=
  let chain := t.lineage name
  let inChain := Std.TreeSet.ofList chain
  chain ++ (t.supertypes name).filter (· ∉ inChain)

/-- Every method of a name declared in the hierarchy of a type, in search order. Constructors are not inherited. -/
def declaredMembers (t : ClassTable) (typeName member : String) : List MethodDecl :=
  ((t.memberOrder typeName).filterMap t.underlying?).flatMap fun owner =>
    (owner.overloads member).filter fun m => !m.isConstructor || owner.name = t.canonicalName typeName

/-- The methods of a name that a type has: of several with the same parameter types the first in search order. -/
def members (t : ClassTable) (typeName member : String) : List MethodDecl :=
  firstOfEach (fun m n => sameTypes m.params n.params) (t.declaredMembers typeName member)

end ClassTable

end Linkage
