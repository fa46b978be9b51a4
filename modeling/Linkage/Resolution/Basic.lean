import Linkage.Accessibility
import Linkage.ClassTable.Members
import Linkage.Fault
import Linkage.Reference
import Linkage.Resolution.Candidate

/-!
# Resolution

Which method a reference denotes, and which constructor a creation calls, seen from the code of one type.
-/

namespace Linkage

/-- Where names are resolved: the known types, the type whose code refers to them, and what it may use. -/
structure Scope where
  classes : ClassTable
  policy : AccessPolicy
  accessing : String

namespace Scope

/-- The methods of a name that a type has and that may be used, in search order. -/
def visibleMembers (s : Scope) (typeName member : String) : List MethodDecl :=
  s.policy.select s.classes s.accessing (s.classes.members typeName member)

/-- The type in which the members of a target are searched; arrays have those of the root class. -/
def lookupName? : JType → Option String
  | .array _ => some WellKnown.object
  | t => t.internalName?

/-- The arguments that a method is matched against. An instance method that is referred to by a type takes the first exact parameter
as its receiver, and has no match when there is none. -/
def arguments? (isType : Bool) (exact : List Param) (m : MethodDecl) : Option (List Param) :=
  if isType && !m.isStatic then exact.tail? else some exact

/-- The candidate that a method makes, if its parameters accept the arguments. -/
def candidate? (s : Scope) (isType : Bool) (exact : List Param) (m : MethodDecl) (order : Nat) : Option Candidate := do
  let arguments ← arguments? isType exact m
  guard (s.classes.accepts arguments m.params)
  return ⟨m, order, isType && !m.isStatic, arguments⟩

/-- The candidates among the visible methods of a type. -/
def candidates (s : Scope) (isType : Bool) (exact : List Param) (typeName member : String) : List Candidate :=
  (s.visibleMembers typeName member).zipIdx.filterMap fun (m, order) => s.candidate? isType exact m order

/-- The candidate that a reference denotes. A single candidate needs no ranking. -/
def choose? (s : Scope) (target : String) (isType : Bool) : List Candidate → Option Candidate
  | [] => none
  | [c] => some c
  | cs => Candidate.pick? s.classes (Candidate.best (Candidate.score s.classes target isType) cs)

/-- Checks that the receiver of a candidate, if it takes one, is of the target type. -/
def requireReceiver (s : Scope) (target : Target) (exact : List Param) (c : Candidate) : Except Fault Unit :=
  match c.takesReceiver, exact with
  | true, receiver :: _ =>
    if s.classes.isSubtype receiver.type target.staticType then .ok ()
    else .error (.receiverType receiver.type target.staticType target.span)
  | _, _ => .ok ()

/-- The method that a reference denotes, given its exact parameters. -/
def resolve (s : Scope) (r : Reference) (exact : List Param) : Except Fault MethodDecl :=
  let type := r.target.staticType
  match lookupName? type with
  | none => .error (.shape (.noMembers type) r.span)
  | some typeName =>
    match s.choose? (s.classes.canonicalName typeName) r.target.isType (s.candidates r.target.isType exact typeName r.member) with
    | none => .error (.unresolved r.member (exact.map (·.type)) type r.span)
    | some c => (fun _ => c.method) <$> s.requireReceiver r.target exact c

/-- The constructors of a class that may be used and accept the arguments. -/
def constructorCandidates (s : Scope) (decl : ClassDecl) (arguments : List Param) : List Candidate :=
  (s.policy.select s.classes s.accessing (decl.overloads WellKnown.constructor)).zipIdx.filterMap fun (m, order) =>
    if s.classes.accepts arguments m.params then some ⟨m, order, false, arguments⟩ else none

/-- The constructor of a class that accepts the arguments best. -/
def constructorFor (s : Scope) (className : String) (arguments : List Param) (span : Span) : Except Fault MethodDecl :=
  match (s.classes.underlying? className).bind fun decl => Candidate.pick? s.classes (s.constructorCandidates decl arguments) with
  | some c => .ok c.method
  | none => .error (.unresolved WellKnown.creation (arguments.map (·.type)) (.ofClass className) span)

end Scope

end Linkage
