import Linkage.Proofs.ClassTable.Hierarchy
import Linkage.Proofs.NameSupply

/-!
# Tables that agree but for factories

Lowering adds factories to a known type, and later lookups see them. Two tables agree when what they register is the same once factories
are left out (`ClassTable.Agrees`). Names, types, the hierarchy and conversions are the same in both, and so are the members of every
name that no factory has.
-/

namespace Linkage

open NameSupply

/-- A static method with a factory's name. -/
def MethodDecl.IsFactory (m : MethodDecl) : Prop :=
  m.isStatic = true ∧ IsFactoryName m.name

instance (m : MethodDecl) : Decidable m.IsFactory :=
  inferInstanceAs (Decidable (_ ∧ _))

namespace ClassDecl

/-- The declaration without its factories. -/
def withoutFactories (c : ClassDecl) : ClassDecl :=
  { c with methods := c.methods.filter fun m => ¬ m.IsFactory }

variable {c d : ClassDecl}

/-- Declarations that are the same without their factories differ in their methods only. -/
theorem showsRest_withoutFactories : ShowsRest withoutFactories :=
  showsRest_methods fun methods => methods.filter fun m => ¬ m.IsFactory

/-- Methods that are chosen by what no factory has are chosen alike. -/
theorem filter_methods_congr (h : c.withoutFactories = d.withoutFactories) {p : MethodDecl → Bool}
    (hp : ∀ m, p m = true → ¬ m.IsFactory) : c.methods.filter p = d.methods.filter p := by
  have hfilter : ∀ ms : List MethodDecl, ms.filter p = (ms.filter fun m => ¬ m.IsFactory).filter p := by
    intro ms
    rw [List.filter_filter]
    refine List.filter_congr fun m _ => ?_
    cases hm : p m with
    | false => rfl
    | true => simp [hp m hm]
  have hmethods : (c.methods.filter fun m => ¬ m.IsFactory) = d.methods.filter fun m => ¬ m.IsFactory :=
    congrArg ClassDecl.methods h
  rw [hfilter c.methods, hfilter d.methods, hmethods]

/-- The overloads of a name that no factory has. -/
theorem overloads_congr (h : c.withoutFactories = d.withoutFactories) {name : String} (hname : ¬ IsFactoryName name) :
    c.overloads name = d.overloads name := by
  refine filter_methods_congr h ?_
  rintro m hm ⟨-, hfactory⟩
  rw [of_decide_eq_true hm] at hfactory
  exact hname hfactory

end ClassDecl

namespace ClassTable

/-- Under every name the tables register the same, once factories are left out. -/
def Agrees (t u : ClassTable) : Prop :=
  ∀ name, (t.get? name).map ClassDecl.withoutFactories = (u.get? name).map ClassDecl.withoutFactories

variable {t u v : ClassTable}

namespace Agrees

theorem refl (t : ClassTable) : t.Agrees t :=
  fun _ => rfl

theorem symm (h : t.Agrees u) : u.Agrees t :=
  fun name => (h name).symm

theorem trans (h : t.Agrees u) (h' : u.Agrees v) : t.Agrees v :=
  fun name => (h name).trans (h' name)

/-- Factories are methods, so the hierarchy is the same. -/
theorem sameHierarchy (h : t.Agrees u) : t.SameHierarchy u :=
  LooksLike.sameHierarchy ClassDecl.showsRest_withoutFactories h

/-- A type that is unknown to one table is unknown to the other, and a known one differs in its factories only. -/
theorem get?_cases (h : t.Agrees u) (name : String) : (t.get? name = none ∧ u.get? name = none) ∨
    ∃ c d, t.get? name = some c ∧ u.get? name = some d ∧ c.withoutFactories = d.withoutFactories :=
  LooksLike.get?_cases h name

/-- What a name stands for differs in its factories only. -/
theorem underlying?_cases (h : t.Agrees u) (name : String) : (t.underlying? name = none ∧ u.underlying? name = none) ∨
    ∃ c d, t.underlying? name = some c ∧ u.underlying? name = some d ∧ c.withoutFactories = d.withoutFactories :=
  LooksLike.underlying?_cases ClassDecl.showsRest_withoutFactories h name

/-! ## Members -/

/-- No factory is a member under another name. -/
theorem declaredMembers (h : t.Agrees u) (typeName : String) {member : String} (hmember : ¬ IsFactoryName member) :
    t.declaredMembers typeName member = u.declaredMembers typeName member := by
  unfold ClassTable.declaredMembers
  rw [h.sameHierarchy.memberOrder, h.sameHierarchy.canonicalName]
  refine LooksLike.flatMap_underlying? ClassDecl.showsRest_withoutFactories h ?_ _
  intro c d hcd
  rw [ClassDecl.overloads_congr hcd hmember, ClassDecl.showsRest_withoutFactories c d hcd]

/-- Members that no factory is named like are the same. -/
theorem members (h : t.Agrees u) (typeName : String) {member : String} (hmember : ¬ IsFactoryName member) :
    t.members typeName member = u.members typeName member := by
  rw [ClassTable.members, ClassTable.members, h.declaredMembers typeName hmember]

/-! ## Adding a factory -/

/-- A table agrees with itself after a factory was added. -/
theorem addMethod? {className : String} {m : MethodDecl} (hm : m.IsFactory) (h : t.addMethod? className m = some u) : t.Agrees u := by
  refine looksLike_addMethod? h fun c => ?_
  have hfactory : MethodDecl.IsFactory { m with declaring := className } := hm
  simp [ClassDecl.withoutFactories, List.filter_append, hfactory]

end Agrees

end ClassTable

end Linkage
