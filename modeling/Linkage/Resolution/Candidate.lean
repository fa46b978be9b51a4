import Linkage.ClassTable.Conversion

/-!
# Candidates of a reference

The methods that a reference may denote, with the arguments each was matched against, and the rules that rank them: first by
closeness to the target, then by how specific their parameters are, last by order.
-/

namespace Linkage

/-- A method that accepts the arguments of a reference. -/
structure Candidate where
  method : MethodDecl
  /-- The place among the methods that were looked at. -/
  order : Nat
  /-- Whether the first exact parameter is the receiver and no argument. -/
  takesReceiver : Bool
  arguments : List Param
  deriving DecidableEq

/-- The score of a method that its class declares right at the target. -/
def closestLevel : Nat :=
  9

/-- The bonus when a static method is referred to by a type, or an instance method by a value. -/
def agreementBonus : Nat :=
  9

/-- How close a candidate is to the target of a reference. `chain` is the declaring class and its superclasses; each step along it
before the target costs a level, and a chain that misses the target costs its whole length. -/
def closeness (chain : List String) (target : String) (shapeAgrees : Bool) : Nat :=
  (closestLevel - chain.idxOf target) * 10 + if shapeAgrees then agreementBonus else 0

namespace Candidate

/-- The parameters are the arguments themselves. -/
def isExact (c : Candidate) : Bool :=
  sameTypes c.arguments c.method.params

/-- The parameters may be passed to every candidate of a list. -/
def isMostSpecific (classes : ClassTable) (c : Candidate) (among : List Candidate) : Bool :=
  among.all fun other => classes.accepts c.method.params other.method.params

/-- The first of the candidates of least order. -/
def earliest? : List Candidate → Option Candidate
  | [] => none
  | c :: cs =>
    match earliest? cs with
    | none => some c
    | some d => if d.order < c.order then some d else some c

/-- Picks one of several candidates of equal score: the first whose parameters are the arguments, else the first whose parameters
fit every other one, else the earliest. -/
def pick? (classes : ClassTable) (tied : List Candidate) : Option Candidate :=
  (tied.find? isExact <|> tied.find? fun c => c.isMostSpecific classes tied) <|> earliest? tied

/-- How close the class that declares a candidate is to the target. -/
def score (classes : ClassTable) (target : String) (isType : Bool) (c : Candidate) : Nat :=
  closeness (classes.lineage c.method.declaring) target (isType = c.method.isStatic)

/-- The highest score in a list. -/
def topScore (score : Candidate → Nat) (cs : List Candidate) : Nat :=
  (cs.map score).foldr max 0

/-- The candidates of the highest score. -/
def best (score : Candidate → Nat) (cs : List Candidate) : List Candidate :=
  let top := topScore score cs
  cs.filter fun c => score c = top

end Candidate

end Linkage
