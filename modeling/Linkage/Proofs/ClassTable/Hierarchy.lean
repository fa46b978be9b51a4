import Linkage.Accessibility
import Linkage.ClassTable.Conversion
import Linkage.ClassTable.Members
import Linkage.Proofs.Declaration

/-!
# Tables that differ in methods only

Names, types, the hierarchy, conversions and access rights are read off declarations without a look at their methods. Tables that register
the same but for methods (`ClassTable.SameHierarchy`) give the same answers to all of these questions.

Which part of the methods two tables have in common may be said by a view of declarations: `t.LooksLike view u` says that under every name
both register declarations that look the same.
-/

namespace Linkage

namespace ClassDecl

/-- The declaration without its methods. -/
def withoutMethods (c : ClassDecl) : ClassDecl :=
  { c with methods := [] }

/-- The view shows all of a declaration, apart from its methods or something of them. -/
def ShowsRest (view : ClassDecl → ClassDecl) : Prop :=
  ∀ c d, view c = view d → d = { c with methods := d.methods }

/-- What a view makes of the methods alone leaves the rest to be seen. -/
theorem showsRest_methods (f : List MethodDecl → List MethodDecl) : ShowsRest fun c => { c with methods := f c.methods } := by
  intro c d h
  cases c
  cases d
  injection h
  simp_all

/-- Leaving out methods shows the rest of a declaration. -/
theorem showsRest_withoutMethods : ShowsRest withoutMethods :=
  showsRest_methods fun _ => []

end ClassDecl

namespace ClassTable

/-- Under every name both tables register declarations that look the same, or nothing. -/
def LooksLike (t : ClassTable) (view : ClassDecl → ClassDecl) (u : ClassTable) : Prop :=
  ∀ name, (t.get? name).map view = (u.get? name).map view

/-- Under every name the tables register the same, but for its methods. -/
def SameHierarchy (t u : ClassTable) : Prop :=
  t.LooksLike ClassDecl.withoutMethods u

variable {t u : ClassTable}

namespace LooksLike

variable {view : ClassDecl → ClassDecl}

/-- A name that is unknown to one table is unknown to the other, and the declarations of a known one look the same. -/
theorem get?_cases (h : t.LooksLike view u) (name : String) : (t.get? name = none ∧ u.get? name = none) ∨
    ∃ c d, t.get? name = some c ∧ u.get? name = some d ∧ view c = view d := by
  have hname := h name
  cases hc : t.get? name with
  | none =>
    rw [hc, Option.map_none, eq_comm, Option.map_eq_none_iff] at hname
    exact .inl ⟨rfl, hname⟩
  | some c =>
    rw [hc, Option.map_some, eq_comm, Option.map_eq_some_iff] at hname
    obtain ⟨d, hd, hcd⟩ := hname
    exact .inr ⟨c, d, rfl, hd, hcd.symm⟩

/-- Aliases are followed alike. -/
theorem followFrom (hview : ClassDecl.ShowsRest view) (h : t.LooksLike view u) (steps : Nat) {c d : ClassDecl} (hcd : view c = view d) :
    (t.followFrom steps c = u.followFrom steps d ∧ ∀ decl, t.followFrom steps c ≠ .declared decl) ∨
      ∃ c' d', t.followFrom steps c = .declared c' ∧ u.followFrom steps d = .declared d' ∧ view c' = view d' := by
  induction steps generalizing c d with
  | zero => exact .inl ⟨rfl, fun _ => nofun⟩
  | succ steps ih =>
    have halias : d.aliasOf = c.aliasOf := by rw [hview c d hcd]
    simp only [ClassTable.followFrom, halias]
    cases c.aliasOf with
    | none => exact .inr ⟨c, d, rfl, rfl, hcd⟩
    | some target =>
      rcases h.get?_cases target with ⟨ht, hu⟩ | ⟨c', d', ht, hu, hcd'⟩
      · simp [ht, hu]
      · simp only [ht, hu]
        exact ih hcd'

/-- What a name stands for looks the same. -/
theorem underlying?_cases (hview : ClassDecl.ShowsRest view) (h : t.LooksLike view u) (name : String) :
    (t.underlying? name = none ∧ u.underlying? name = none) ∨
      ∃ c d, t.underlying? name = some c ∧ u.underlying? name = some d ∧ view c = view d := by
  unfold underlying? follow
  rcases h.get?_cases name with ⟨ht, hu⟩ | ⟨c, d, ht, hu, hcd⟩
  · simp [ht, hu]
  · simp only [ht, hu]
    rcases h.followFrom hview aliasLimit hcd with ⟨heq, hnone⟩ | ⟨c', d', ht', hu', hcd'⟩
    · rw [← heq]
      cases hland : t.followFrom aliasLimit c with
      | declared decl => exact absurd hland (hnone decl)
      | unknown => exact .inl ⟨rfl, rfl⟩
      | tooLong => exact .inl ⟨rfl, rfl⟩
    · simp only [ht', hu']
      exact .inr ⟨c', d', rfl, rfl, hcd'⟩

/-- Tables that look the same have the same hierarchy. -/
theorem sameHierarchy (hview : ClassDecl.ShowsRest view) (h : t.LooksLike view u) : t.SameHierarchy u := by
  intro name
  rcases h.get?_cases name with ⟨ht, hu⟩ | ⟨c, d, ht, hu, hcd⟩
  · rw [ht, hu]
  · rw [ht, hu, hview c d hcd]
    rfl

/-- Lists that are read of the declarations behind names are the same when declarations that look the same give the same. -/
theorem flatMap_underlying? (hview : ClassDecl.ShowsRest view) (h : t.LooksLike view u) {α : Type} {f : ClassDecl → List α}
    (hf : ∀ c d, view c = view d → f c = f d) (names : List String) :
    (names.filterMap t.underlying?).flatMap f = (names.filterMap u.underlying?).flatMap f := by
  induction names with
  | nil => rfl
  | cons name names ih =>
    rcases h.underlying?_cases hview name with ⟨ht, hu⟩ | ⟨c, d, ht, hu, hcd⟩
    · rw [List.filterMap_cons_none ht, List.filterMap_cons_none hu, ih]
    · rw [List.filterMap_cons_some ht, List.filterMap_cons_some hu, List.flatMap_cons, List.flatMap_cons, hf c d hcd, ih]

end LooksLike

namespace SameHierarchy

/-- A name stands for nothing in both tables, or for declarations that differ in their methods only. -/
theorem underlying?_cases (h : t.SameHierarchy u) (name : String) :
    (t.underlying? name = none ∧ u.underlying? name = none) ∨
      ∃ c methods, t.underlying? name = some c ∧ u.underlying? name = some { c with methods := methods } := by
  rcases LooksLike.underlying?_cases ClassDecl.showsRest_withoutMethods h name with hnone | ⟨c, d, ht, hu, hcd⟩
  · exact .inl hnone
  · rw [ClassDecl.showsRest_withoutMethods c d hcd] at hu
    exact .inr ⟨c, d.methods, ht, hu⟩

/-! ## Names, types and the hierarchy -/

/-- Names are resolved alike. -/
theorem canonicalName (h : t.SameHierarchy u) : t.canonicalName = u.canonicalName := by
  funext name
  unfold ClassTable.canonicalName
  rcases h.underlying?_cases name with ⟨ht, hu⟩ | ⟨c, methods, ht, hu⟩ <;> rw [ht, hu]

/-- The same names are interfaces. -/
theorem isInterface (h : t.SameHierarchy u) : t.isInterface = u.isInterface := by
  funext name
  unfold ClassTable.isInterface
  rcases h.underlying?_cases name with ⟨ht, hu⟩ | ⟨c, methods, ht, hu⟩
  · rw [ht, hu]
  · rw [ht, hu]
    rfl

/-- Every name has the same superclass. -/
theorem superclass? (h : t.SameHierarchy u) : t.superclass? = u.superclass? := by
  funext name
  unfold ClassTable.superclass?
  rcases h.underlying?_cases name with ⟨ht, hu⟩ | ⟨c, methods, ht, hu⟩
  · rw [ht, hu]
  · rw [ht, hu]
    rfl

/-- Types are resolved alike. -/
theorem canonicalType (h : t.SameHierarchy u) : t.canonicalType = u.canonicalType := by
  funext type
  induction type with
  | prim p => rfl
  | void => rfl
  | array c ih => rw [ClassTable.canonicalType, ClassTable.canonicalType, ih]
  | named k n =>
    unfold ClassTable.canonicalType
    rcases h.underlying?_cases n with ⟨ht, hu⟩ | ⟨c, methods, ht, hu⟩
    · rw [ht, hu]
    · rw [ht, hu]
      rfl

/-- Every name has the same parents. -/
theorem parents (h : t.SameHierarchy u) : t.parents = u.parents := by
  funext name
  unfold ClassTable.parents
  rw [h.canonicalName]
  rcases h.underlying?_cases name with ⟨ht, hu⟩ | ⟨c, methods, ht, hu⟩ <;> rw [ht, hu]

/-- Every name has the same lineage. -/
theorem lineage (h : t.SameHierarchy u) : t.lineage = u.lineage := by
  have hclimb : ∀ steps seen name, t.climb steps seen name = u.climb steps seen name := by
    intro steps
    induction steps with
    | zero => exact fun _ _ => rfl
    | succ steps ih =>
      intro seen name
      simp only [climb, h.superclass?, ih]
  funext name
  rw [ClassTable.lineage, ClassTable.lineage, h.canonicalName, hclimb]

/-- Every name has the same supertypes, in the same order. -/
theorem supertypes (h : t.SameHierarchy u) : t.supertypes = u.supertypes := by
  have hvisit : ∀ steps seen queue, t.visit steps seen queue = u.visit steps seen queue := by
    intro steps
    induction steps with
    | zero => exact fun _ _ => rfl
    | succ steps ih =>
      intro seen queue
      simp only [visit, h.parents, ih]
  funext name
  rw [ClassTable.supertypes, ClassTable.supertypes, h.canonicalName, hvisit]

/-- Members are searched in the same order. -/
theorem memberOrder (h : t.SameHierarchy u) : t.memberOrder = u.memberOrder := by
  funext name
  simp only [ClassTable.memberOrder, h.lineage, h.supertypes]

/-! ## Conversions -/

/-- The same types are subtypes of each other. -/
theorem isSubtype (h : t.SameHierarchy u) : t.isSubtype = u.isSubtype := by
  funext source target
  induction source generalizing target with
  | array c ih =>
    cases target with
    | array d => simp only [ClassTable.isSubtype, ih]
    | _ => rfl
  | named k m =>
    cases target with
    | named l n => simp only [ClassTable.isSubtype, h.canonicalName, h.supertypes]
    | _ => rfl
  | prim p => rfl
  | void => rfl

/-- The same types can be passed for each other. -/
theorem isAssignable (h : t.SameHierarchy u) : t.isAssignable = u.isAssignable := by
  funext source target
  simp only [ClassTable.isAssignable, h.isSubtype]

/-- The same arguments are accepted. -/
theorem accepts (h : t.SameHierarchy u) : t.accepts = u.accepts := by
  funext args params
  induction args generalizing params with
  | nil => cases params <;> rfl
  | cons arg args ih =>
    cases params with
    | nil => rfl
    | cons param params => simp only [ClassTable.accepts, h.isAssignable, ih]

/-! ## Access rights -/

/-- The same members are accessible. -/
theorem isAccessible (h : t.SameHierarchy u) : Linkage.isAccessible t = Linkage.isAccessible u := by
  funext accessing m
  simp only [Linkage.isAccessible, h.canonicalName, h.supertypes]

/-- The rules of the language let the same methods be used. -/
theorem select_language (h : t.SameHierarchy u) (accessing : String) (given : List MethodDecl) :
    AccessPolicy.language.select u accessing given = AccessPolicy.language.select t accessing given := by
  simp only [AccessPolicy.language, h.isAccessible]

end SameHierarchy

/-! ## Adding a method -/

/-- A method that is added is new in its type, stands behind the other methods of the type and changes nothing else. -/
theorem get?_addMethod? {className : String} {m : MethodDecl} (h : t.addMethod? className m = some u) :
    ∃ c, t.get? className = some c ∧ c.declares m.name m.descriptor = false ∧ ∀ name, u.get? name =
      if className = name then some { c with methods := c.methods ++ [{ m with declaring := className }] } else t.get? name := by
  obtain ⟨c, hc, hu⟩ := Option.bind_eq_some_iff.mp h
  obtain ⟨d, hd, hu⟩ := Option.bind_eq_some_iff.mp hu
  obtain rfl := name_of_get? hc
  rcases c.addMethod?_cases m with ⟨-, hadd⟩ | ⟨hnew, hadd⟩
  · cases hadd.symm.trans hd
  · obtain rfl := Option.some.inj (hadd.symm.trans hd)
    refine ⟨c, hc, hnew, fun name => ?_⟩
    rw [← Option.some.inj hu, get?_register]

/-- A table looks as before when the view shows nothing of the method that was added. -/
theorem looksLike_addMethod? {view : ClassDecl → ClassDecl} {className : String} {m : MethodDecl} (h : t.addMethod? className m = some u)
    (hview : ∀ c : ClassDecl, view { c with methods := c.methods ++ [{ m with declaring := className }] } = view c) :
    t.LooksLike view u := by
  obtain ⟨c, hc, -, hu⟩ := get?_addMethod? h
  intro name
  rw [hu]
  split
  · rename_i hname
    rw [← hname, hc, Option.map_some, Option.map_some, hview c]
  · rfl

/-! ## Replacing methods -/

/-- A declaration in place of another that differs from it in methods only leaves the hierarchy as it is. -/
theorem sameHierarchy_register {className : String} {c d : ClassDecl} (hc : t.underlying? className = some c)
    (hrest : d.withoutMethods = c.withoutMethods) :
    t.SameHierarchy (t.register d) ∧ (t.register d).underlying? className = some d := by
  obtain ⟨halias, hget⟩ := aliasOf_of_underlying? hc
  have hd : d = { c with methods := d.methods } := ClassDecl.showsRest_withoutMethods c d hrest.symm
  have hname : d.name = c.name := by rw [hd]
  have hsame : t.SameHierarchy (t.register d) := by
    intro name
    rw [get?_register]
    split
    · rename_i heq
      rw [← heq, hname, hget, Option.map_some, Option.map_some, hrest]
    · rfl
  refine ⟨hsame, ?_⟩
  rcases hsame.underlying?_cases className with ⟨ht, -⟩ | ⟨c', methods, ht, hu⟩
  · rw [hc] at ht
    cases ht
  · obtain rfl := Option.some.inj (hc.symm.trans ht)
    have hget' := (aliasOf_of_underlying? hu).2
    rw [get?_register, if_pos hname] at hget'
    rw [hu, ← hget']

end ClassTable

end Linkage
