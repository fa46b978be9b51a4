import Linkage.Proofs.Emission.Resolved
import Linkage.Proofs.Lowering.Effects

/-!
# Resolution of resolved references

A reference in which every type is replaced by what it stands for denotes the same method (`Scope.resolve_resolved`) and has the same
interface and the same exact parameters, but for kinds, as long as its aliases are hidden (`Reference.HidesAliases`).
-/

namespace Linkage

/-- The target with its type, or the static type of its expression, resolved. -/
def Target.resolved (t : ClassTable) : Target → Target
  | .type given span => .type (t.canonicalType given) span
  | .value e => .value (e.resolved t)

namespace Reference

/-- The reference with its target, its interface and its inferred types resolved. -/
def resolved (t : ClassTable) (r : Reference) : Reference :=
  { r with
    target := r.target.resolved t
    interface := r.interface.map t.canonicalType
    inferred := r.inferred.map (List.map (Option.map t.canonicalType)) }

/-- No alias of the reference is looked at but through what it stands for: inferred types, which become parameter types as they are, name
no alias; nor does the type of a field or the result of a call, which the pool holds as it is; and a name that an array is compared with is
that of a supertype of all arrays if it stands for one, and only then. -/
structure HidesAliases (t : ClassTable) (r : Reference) : Prop where
  inferred : ∀ types, r.inferred = some types → ∀ type, some type ∈ types → t.canonicalType type ≈ type
  receiver : ∀ e, r.target = .value e → e.namesType = true → t.canonicalType e.type ≈ e.type
  target : r.isCreation = false → ∀ type span, r.target = .type type span → ∀ name, type.coreName? = some name →
    (name ∈ WellKnown.arraySupertypes ↔ t.canonicalName name ∈ WellKnown.arraySupertypes)

end Reference

namespace Target

variable (t : ClassTable)

/-- Following aliases does not make a type out of a value. -/
@[simp] theorem isType_resolved (target : Target) : (target.resolved t).isType = target.isType := by
  cases target <;> rfl

/-- The static type stands for what it stood for before. -/
@[simp] theorem canonicalType_staticType_resolved (target : Target) :
    t.canonicalType (target.resolved t).staticType = t.canonicalType target.staticType := by
  cases target with
  | type given span => exact t.canonicalType_canonicalType given
  | value e =>
    cases e with
    | literal value span => rfl
    | _ => exact t.canonicalType_canonicalType _

end Target

/-! ## Methods -/

namespace Scope

variable (s : Scope)

/-- Members are searched in what a name stands for. -/
theorem candidates_canonicalName (isType : Bool) (exact : List Param) (typeName member : String) :
    s.candidates isType exact (s.classes.canonicalName typeName) member = s.candidates isType exact typeName member := by
  rw [candidates, visibleMembers, ClassTable.members_canonicalName, candidates, visibleMembers]

/-- The name that a lookup starts from is the same, aliases followed. -/
theorem lookupName?_canonicalType (t : ClassTable) (type : JType) :
    (lookupName? (t.canonicalType type)).map t.canonicalName = (lookupName? type).map t.canonicalName := by
  cases type with
  | prim p => rfl
  | void => rfl
  | array c => rfl
  | named k n =>
    obtain ⟨k', hk'⟩ := t.exists_canonicalType_named k n
    rw [hk']
    exact congrArg some (t.canonicalName_canonicalName n)

/-- The lookup of a target starts from the same name, aliases followed. -/
theorem lookupName?_resolved (t : ClassTable) (target : Target) :
    (lookupName? (target.resolved t).staticType).map t.canonicalName = (lookupName? target.staticType).map t.canonicalName := by
  rw [← lookupName?_canonicalType, Target.canonicalType_staticType_resolved, lookupName?_canonicalType]

/-- The receiver of a candidate fits a resolved target when it fits the target. -/
theorem requireReceiver_resolved {r : Reference} (h : r.HidesAliases s.classes) (hcreation : r.isCreation = false) (exact : List Param)
    {typeName : String} {c : Candidate} (hc : s.IsCandidate r exact typeName c) :
    (s.requireReceiver (r.target.resolved s.classes) exact c).toOption = (s.requireReceiver r.target exact c).toOption := by
  unfold requireReceiver
  cases htakes : c.takesReceiver with
  | false => rfl
  | true =>
    cases exact with
    | nil => rfl
    | cons receiver exact =>
      have hsubtype : s.classes.isSubtype receiver.type (r.target.resolved s.classes).staticType =
          s.classes.isSubtype receiver.type r.target.staticType := by
        cases htarget : r.target with
        | value e =>
          have hnone := hc.takesReceiver
          rw [htakes, htarget] at hnone
          cases hnone
        | type type span => exact s.classes.isSubtype_canonicalType receiver.type (h.target hcreation type span htarget)
      simp only [hsubtype]
      split <;> rfl

/-- A resolved reference denotes the same method. -/
theorem resolve_resolved {r : Reference} (h : r.HidesAliases s.classes) (hcreation : r.isCreation = false) (exact : List Param) :
    (s.resolve (r.resolved s.classes) exact).toOption = (s.resolve r exact).toOption := by
  rw [toOption_resolve, toOption_resolve]
  have hname := lookupName?_resolved s.classes r.target
  change (lookupName? (r.target.resolved s.classes).staticType).bind _ = _
  cases hlookup : lookupName? r.target.staticType with
  | none =>
    rw [hlookup, Option.map_none, Option.map_eq_none_iff] at hname
    rw [hname]
    rfl
  | some name =>
    rw [hlookup, Option.map_some, Option.map_eq_some_iff] at hname
    obtain ⟨name', hlookup', hname⟩ := hname
    have hcandidates : s.candidates r.target.isType exact name' r.member = s.candidates r.target.isType exact name r.member := by
      rw [← candidates_canonicalName, hname, candidates_canonicalName]
    simp only [hlookup', Option.bind_some, hname, Reference.resolved, Target.isType_resolved, hcandidates]
    cases hchoice : s.choose? (s.classes.canonicalName name) r.target.isType (s.candidates r.target.isType exact name r.member) with
    | none => rfl
    | some c =>
      have hc := (preferred_of_choose? hchoice).holds.candidate
      simp only [Option.bind_some, s.requireReceiver_resolved h hcreation exact hc]

end Scope

/-! ## What the type checker found -/

/-- A type is functional when what it stands for is. -/
theorem FunctionalInterface.find?_canonicalType (t : ClassTable) (type : JType) : find? t (t.canonicalType type) = find? t type := by
  unfold find?
  rw [t.internalName?_canonicalType]
  cases type.internalName? with
  | none => rfl
  | some name => simp only [Option.map_some, Option.bind_eq_bind, Option.bind_some, ClassTable.underlying?_canonicalName]

namespace Reference

variable {t : ClassTable} {r : Reference}

/-- What is found out about a reference is the same, but for the aliases in the inferred types. -/
theorem findings_resolved (t : ClassTable) (r : Reference) :
    ((r.resolved t).findings t).toOption =
      (r.findings t).toOption.map fun found => (found.1, found.2.map (Option.map t.canonicalType)) := by
  unfold findings resolved
  cases r.interface with
  | none => rfl
  | some type =>
    simp only [Option.map_some, FunctionalInterface.find?_canonicalType]
    cases FunctionalInterface.find? t type with
    | none => rfl
    | some f => cases r.inferred <;> rfl

/-- Resolved inferred types make the same exact parameters, but for kinds. -/
theorem HidesAliases.exactParams (h : r.HidesAliases t) {f : FunctionalInterface} {types : List (Option JType)}
    (hfindings : r.findings t = .ok (f, types)) (span : Span) :
    (f.exactParams t (types.map (Option.map t.canonicalType)) span).toOption.map (List.map Param.untag) =
      (f.exactParams t types span).toOption.map (List.map Param.untag) := by
  have htypes : (types.map (Option.map t.canonicalType)).map (Option.map JType.untag) = types.map (Option.map JType.untag) := by
    rw [List.map_map]
    refine List.map_congr_left fun type htype => ?_
    cases type with
    | none => rfl
    | some type => exact congrArg some (JType.equiv_def.mp (h.inferred types (inferred_of_findings hfindings) type htype))
  have halike := congrArg Except.toOption (FunctionalInterface.exactParams_alike t span f htypes)
  simp only [toOption_map, toOption_mapError] at halike
  exact halike

end Reference

end Linkage
