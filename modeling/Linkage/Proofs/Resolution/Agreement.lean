import Linkage.Lowering.Basic
import Linkage.Proofs.ClassTable.Agreement
import Mathlib.Data.Option.Basic

/-!
# Resolution in tables that agree

What a reference denotes, which constructor a creation calls, which method an interface leaves to implement and with which parameters:
all of it is read off the known types, and factories among them make no difference to it.
-/

namespace Linkage

open NameSupply

variable {t u : ClassTable}

namespace ClassTable.SameHierarchy

/-! ## Ranking -/

/-- The same candidate is picked from a tie. -/
theorem pick? (h : t.SameHierarchy u) (tied : List Candidate) : Candidate.pick? t tied = Candidate.pick? u tied := by
  simp only [Candidate.pick?, Candidate.isMostSpecific, h.accepts]

/-- The same candidate is chosen. -/
theorem choose? (h : t.SameHierarchy u) (policy : AccessPolicy) (accessing target : String) (isType : Bool) (cs : List Candidate) :
    Scope.choose? ⟨t, policy, accessing⟩ target isType cs = Scope.choose? ⟨u, policy, accessing⟩ target isType cs := by
  have hscore : Candidate.score t target isType = Candidate.score u target isType := by
    funext c
    simp only [Candidate.score, h.lineage]
  unfold Scope.choose?
  split
  · rfl
  · rfl
  · rw [hscore, h.pick?]

/-- The same receivers are admitted. -/
theorem requireReceiver (h : t.SameHierarchy u) (policy : AccessPolicy) (accessing : String) (target : Target) (exact : List Param)
    (c : Candidate) :
    Scope.requireReceiver ⟨t, policy, accessing⟩ target exact c = Scope.requireReceiver ⟨u, policy, accessing⟩ target exact c := by
  simp only [Scope.requireReceiver, h.isSubtype]

end ClassTable.SameHierarchy

namespace ClassTable.Agrees

/-! ## Members and constructors -/

section Visible

variable {policy policy' : AccessPolicy} {accessing : String}

/-- The candidates are the same for a member that no factory is named like. -/
theorem candidates (h : t.Agrees u) (hvisible : ∀ given, policy'.select u accessing given = policy.select t accessing given)
    (isType : Bool) (exact : List Param) (typeName : String) {member : String} (hmember : ¬ IsFactoryName member) :
    Scope.candidates ⟨u, policy', accessing⟩ isType exact typeName member =
      Scope.candidates ⟨t, policy, accessing⟩ isType exact typeName member := by
  simp only [Scope.candidates, Scope.visibleMembers, hvisible, h.members typeName hmember, Scope.candidate?, h.sameHierarchy.accepts]

/-- A reference whose member no factory has the name of denotes the same method for code that may use the same methods. -/
theorem resolve_of_visible (h : t.Agrees u) (hvisible : ∀ given, policy'.select u accessing given = policy.select t accessing given)
    {r : Reference} (hmember : ¬ IsFactoryName r.member) (exact : List Param) :
    Scope.resolve ⟨u, policy', accessing⟩ r exact = Scope.resolve ⟨t, policy, accessing⟩ r exact := by
  have hchoose : ∀ target isType cs, Scope.choose? ⟨u, policy', accessing⟩ target isType cs =
      Scope.choose? ⟨t, policy, accessing⟩ target isType cs :=
    fun target isType cs => (h.sameHierarchy.choose? policy' accessing target isType cs).symm
  have hreceiver : ∀ c, Scope.requireReceiver ⟨u, policy', accessing⟩ r.target exact c =
      Scope.requireReceiver ⟨t, policy, accessing⟩ r.target exact c :=
    fun c => (h.sameHierarchy.requireReceiver policy' accessing r.target exact c).symm
  simp only [Scope.resolve, h.candidates hvisible r.target.isType exact _ hmember, hchoose, h.sameHierarchy.canonicalName, hreceiver]

end Visible

/-- Under the rules of the language it denotes the same method. -/
theorem resolve (h : t.Agrees u) (accessing : String) {r : Reference} (hmember : ¬ IsFactoryName r.member) (exact : List Param) :
    Scope.resolve ⟨t, .language, accessing⟩ r exact = Scope.resolve ⟨u, .language, accessing⟩ r exact :=
  (h.resolve_of_visible (h.sameHierarchy.select_language accessing) hmember exact).symm

/-- A creation calls the same constructor. -/
theorem constructorFor (h : t.Agrees u) (accessing className : String) (arguments : List Param) (span : Span) :
    Scope.constructorFor ⟨t, .language, accessing⟩ className arguments span =
      Scope.constructorFor ⟨u, .language, accessing⟩ className arguments span := by
  have hcandidates : ∀ c d : ClassDecl, c.withoutFactories = d.withoutFactories →
      Scope.constructorCandidates ⟨t, .language, accessing⟩ c arguments =
        Scope.constructorCandidates ⟨u, .language, accessing⟩ d arguments := by
    intro c d hcd
    have hname : ¬ IsFactoryName WellKnown.constructor := by decide
    simp only [Scope.constructorCandidates, AccessPolicy.language, ClassDecl.overloads_congr hcd hname, h.sameHierarchy.isAccessible,
      h.sameHierarchy.accepts]
  unfold Scope.constructorFor
  rcases h.underlying?_cases className with ⟨ht, hu⟩ | ⟨c, d, ht, hu, hcd⟩
  · simp only [ht, hu, Option.bind_none]
  · simp only [ht, hu, Option.bind_some, hcandidates c d hcd, h.sameHierarchy.pick?]

/-- The same constructor is found for a creation. -/
theorem constructorOf (h : t.Agrees u) (accessing : String) (type : JType) (className : String) (exact : List Param) (span : Span) :
    Factory.constructorOf ⟨t, .language, accessing⟩ type className exact span =
      Factory.constructorOf ⟨u, .language, accessing⟩ type className exact span := by
  have hkind : (t.underlying? className).any (fun decl => decl.isInterface || decl.isAbstract) =
      (u.underlying? className).any fun decl => decl.isInterface || decl.isAbstract := by
    rcases h.sameHierarchy.underlying?_cases className with ⟨ht, hu⟩ | ⟨c, methods, ht, hu⟩
    · rw [ht, hu]
    · rw [ht, hu]
      rfl
  simp only [Factory.constructorOf, hkind, h.constructorFor]

/-! ## Functional interfaces -/

/-- A static method leaves nothing to implement, so factories do not count. -/
theorem declaredMethods (h : t.Agrees u) (name : String) :
    FunctionalInterface.declaredMethods t name = FunctionalInterface.declaredMethods u name := by
  unfold FunctionalInterface.declaredMethods
  rw [h.sameHierarchy.supertypes]
  refine LooksLike.flatMap_underlying? ClassDecl.showsRest_withoutFactories h ?_ _
  intro c d hcd
  have hmethods : (c.methods.filter fun m => !m.isStatic && !m.isConstructor) =
      d.methods.filter fun m => !m.isStatic && !m.isConstructor := by
    refine ClassDecl.filter_methods_congr hcd ?_
    rintro m hm ⟨hstatic, -⟩
    rw [hstatic] at hm
    cases hm
  rw [hmethods, ClassDecl.showsRest_withoutFactories c d hcd]
  rfl

/-- A type stands for the same functional interface. -/
theorem find? (h : t.Agrees u) (type : JType) : FunctionalInterface.find? t type = FunctionalInterface.find? u type := by
  unfold FunctionalInterface.find?
  cases type.internalName? with
  | none => rfl
  | some name =>
    rcases h.underlying?_cases name with ⟨ht, hu⟩ | ⟨c, d, ht, hu, hcd⟩
    · simp [ht, hu]
    · have hd := ClassDecl.showsRest_withoutFactories c d hcd
      simp only [Option.bind_eq_bind, Option.bind_some, ht, hu, FunctionalInterface.abstractMethods, h.declaredMethods]
      rw [hd]
      rfl

/-- The exact parameters of a reference are the same. -/
theorem exactParams (h : t.Agrees u) (f : FunctionalInterface) (inferred : List (Option JType)) (span : Span) :
    f.exactParams t inferred span = f.exactParams u inferred span := by
  have hslot : FunctionalInterface.slot t span = FunctionalInterface.slot u span := by
    funext declared type
    cases type with
    | none => rfl
    | some type => simp only [FunctionalInterface.slot, FunctionalInterface.slotType, h.sameHierarchy.isSubtype]
  have hslots : ∀ params types, FunctionalInterface.slots t span params types = FunctionalInterface.slots u span params types := by
    intro params
    induction params with
    | nil => exact fun _ => rfl
    | cons p ps ih =>
      intro types
      cases types with
      | nil => rfl
      | cons type types => simp only [FunctionalInterface.slots, hslot, ih]
  simp only [FunctionalInterface.exactParams, hslots]

/-- What the type checker found makes the same of a reference. -/
theorem findings (h : t.Agrees u) (r : Reference) : r.findings t = r.findings u := by
  simp only [Reference.findings, h.find?]

end ClassTable.Agrees

end Linkage
