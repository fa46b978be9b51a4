import Linkage.Journal.Lookup

/-!
# Journals of resolution

Which methods were passed over and why, how the others scored, and which one was taken.
-/

namespace Linkage

namespace Journal

/-- Looking for a candidate whose parameters fit every other one, up to the first that is found. -/
def mostSpecific (t : ClassTable) (tied : List Candidate) : Journal :=
  search tied
where
  /-- Comparing one candidate with the others, up to the first misfit. -/
  compare (c : Candidate) : List Candidate → Journal
    | [] => []
    | other :: others =>
      accepts t c.method.params other.method.params ++
        if t.accepts c.method.params other.method.params then compare c others else []
  /-- Comparing the candidates in turn. -/
  search : List Candidate → Journal
    | [] => []
    | c :: cs => compare c tied ++ if c.isMostSpecific t tied then [] else search cs

/-- Picking one of several candidates of equal score. -/
def pick (t : ClassTable) (tied : List Candidate) : Journal :=
  if tied.any Candidate.isExact then [] else mostSpecific t tied

/-- Matching a visible method against the exact parameters. -/
def candidate (t : ClassTable) (isType : Bool) (exact : List Param) (m : MethodDecl) : Journal :=
  match Scope.arguments? isType exact m with
  | none => [.noReceiver m]
  | some arguments => accepts t arguments m.params ++ if t.accepts arguments m.params then [] else [.incompatible m]

/-- Choosing between candidates. -/
def choose (t : ClassTable) (target : String) (isType : Bool) (cs : List Candidate) : Journal :=
  match cs with
  | [] => []
  | [_] => []
  | _ =>
    let score := Candidate.score t target isType
    cs.flatMap (fun c => lineage t c.method.declaring ++ [.scored c.method (score c)]) ++
      pick t (Candidate.best score cs)

/-- Checking the receiver of the chosen candidate. -/
def requireReceiver (t : ClassTable) (target : Target) (exact : List Param) (c : Candidate) : Journal :=
  match c.takesReceiver, exact with
  | true, receiver :: _ => isSubtype t receiver.type target.staticType
  | _, _ => []

/-- Resolving a reference. -/
def resolve (watch : Watch) (s : Scope) (r : Reference) (exact : List Param) : Journal :=
  match Scope.lookupName? r.target.staticType with
  | none => []
  | some typeName =>
    let t := s.classes
    let isType := r.target.isType
    let target := t.canonicalName typeName
    let cs := s.candidates isType exact typeName r.member
    follow t typeName ++ members t typeName ++ watch t s.accessing (t.members typeName r.member) ++
      (s.visibleMembers typeName r.member).flatMap (candidate t isType exact) ++ choose t target isType cs ++
      ((s.choose? target isType cs).map (requireReceiver t r.target exact)).getD [] ++
      match s.resolve r exact with
      | .ok method => [.resolved r method]
      | .error _ => []

/-- Selecting a constructor. -/
def constructorFor (watch : Watch) (s : Scope) (className : String) (arguments : List Param) : Journal :=
  let t := s.classes
  follow t className ++
    match t.underlying? className with
    | none => []
    | some decl =>
      let constructors := decl.overloads WellKnown.constructor
      watch t s.accessing constructors ++
        (s.policy.select t s.accessing constructors).flatMap (fun m => accepts t arguments m.params) ++
        pick t (s.constructorCandidates decl arguments)

end Journal

end Linkage
