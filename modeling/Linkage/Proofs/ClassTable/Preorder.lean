import Linkage.ClassTable.Platform
import Linkage.Proofs.ClassTable.BreadthFirst
import Linkage.Proofs.ClassTable.Hierarchy
import Linkage.Proofs.ClassTable.Resolved
import Mathlib.Order.Defs.Unbundled

/-!
# Subtyping is a preorder

Said without the check, one type is a subtype of another when it narrows the other (`ClassTable.Narrows`): by its component, by its name,
or because every array does. Narrowing is transitive where the types that stand above all arrays are those of the platform
(`ClassTable.StandardArrays`), so subtyping is, and what may be passed for a type may be passed for its supertypes
(`isPreorder_isSubtype`).
-/

namespace Linkage

namespace ClassTable

variable {t : ClassTable} {a b c : JType} {l m n : String}

/-! ## The supertypes of all arrays -/

/-- The supertypes of all arrays are registered as they are among the platform types, methods apart, and no alias stands for one of them. -/
structure StandardArrays (t : ClassTable) : Prop where
  registered : ∀ name ∈ WellKnown.arraySupertypes,
    (t.get? name).map ClassDecl.withoutMethods = (platform.get? name).map ClassDecl.withoutMethods
  noAlias : ∀ name decl, t.get? name = some decl → decl.aliasOf ≠ none → t.canonicalName name ∉ WellKnown.arraySupertypes

/-- On the platform the supertypes of all arrays are no aliases, implement nothing, and extend the root class if anything. -/
theorem get?_platform_arraySupertypes (hn : n ∈ WellKnown.arraySupertypes) : ∃ decl, platform.get? n = some decl ∧
    decl.aliasOf = none ∧ decl.interfaces = [] ∧ ∀ parent ∈ decl.superclass, parent = WellKnown.object ∧ n ≠ WellKnown.object := by
  have hplatform : ∀ name ∈ WellKnown.arraySupertypes, (platform.get? name).any (fun decl => decl.aliasOf = none ∧
      decl.interfaces = [] ∧ ∀ parent ∈ decl.superclass, parent = WellKnown.object ∧ name ≠ WellKnown.object) = true := by
    decide +kernel
  simpa only [Option.any_eq_true, decide_eq_true_eq] using hplatform n hn

namespace StandardArrays

variable (h : t.StandardArrays)

include h

theorem underlying?_eq (hn : n ∈ WellKnown.arraySupertypes) : ∃ decl, t.underlying? n = some decl ∧ decl.name = n ∧
    decl.interfaces = [] ∧ ∀ parent ∈ decl.superclass, parent = WellKnown.object ∧ n ≠ WellKnown.object := by
  obtain ⟨c, hc, halias, hinterfaces, hsuperclass⟩ := get?_platform_arraySupertypes hn
  have hregistered := h.registered n hn
  rw [hc, Option.map_some, Option.map_eq_some_iff] at hregistered
  obtain ⟨d, hd, hdc⟩ := hregistered
  rw [ClassDecl.showsRest_withoutMethods c d hdc.symm] at hd
  exact ⟨_, underlying?_of_get? hd halias, name_of_get? hd, hinterfaces, hsuperclass⟩

/-- A supertype of all arrays stands for itself. -/
theorem canonicalName_eq (hn : n ∈ WellKnown.arraySupertypes) : t.canonicalName n = n := by
  obtain ⟨decl, hdecl, hname, -, -⟩ := h.underlying?_eq hn
  rw [canonicalName_of_underlying? hdecl, hname]

/-- A step from a supertype of all arrays leads to the root class, and none leads from there. -/
theorem eq_object_of_step (hn : n ∈ WellKnown.arraySupertypes) (hstep : t.Step n m) : m = WellKnown.object ∧ n ≠ WellKnown.object := by
  obtain ⟨decl, hdecl, -, hinterfaces, hsuperclass⟩ := h.underlying?_eq hn
  obtain ⟨decl', hdecl', hm⟩ := step_iff.mp hstep
  obtain rfl := Option.some.inj (hdecl.symm.trans hdecl')
  rw [hinterfaces, List.map_nil, List.append_nil, Option.mem_toList] at hm
  exact hsuperclass m hm

/-- What is above a supertype of all arrays is one too. -/
theorem mem_of_reaches (hn : n ∈ WellKnown.arraySupertypes) (hreaches : t.Reaches n m) : m ∈ WellKnown.arraySupertypes := by
  induction hreaches with
  | refl => exact hn
  | tail _ hstep ih =>
    rw [(h.eq_object_of_step ih hstep).1]
    exact List.mem_cons_self

/-- Nothing else is above the root class. -/
theorem eq_object_of_reaches (hreaches : t.Reaches WellKnown.object m) : m = WellKnown.object := by
  rcases Relation.ReflTransGen.cases_head hreaches with rfl | ⟨n, hstep, -⟩
  · rfl
  · exact absurd rfl (h.eq_object_of_step List.mem_cons_self hstep).2

/-- Only its own name stands for a supertype of all arrays. -/
theorem mem_of_canonicalName_mem (hn : t.canonicalName n ∈ WellKnown.arraySupertypes) : n ∈ WellKnown.arraySupertypes := by
  by_cases hsame : t.canonicalName n = n
  · rwa [hsame] at hn
  · obtain ⟨decl, hdecl, halias⟩ := exists_alias_of_canonicalName_ne hsame
    exact absurd hn (h.noAlias n decl hdecl halias)

end StandardArrays

/-! ## Narrowing -/

/-- The first name leads up to what the second stands for; every name leads to the root class. -/
def LeadsTo (t : ClassTable) (m n : String) : Prop :=
  t.canonicalName n = WellKnown.object ∨ t.canonicalName n ∈ t.supertypes m

/-- A type narrows another when it is the same, or an array whose component narrows that of the other, or any array where the other is
a supertype of all arrays, or when its name leads to the other's. -/
inductive Narrows (t : ClassTable) : JType → JType → Prop where
  | same {a b : JType} : a ≈ b → Narrows t a b
  | component {c d : JType} : c.isReference = true → d.isReference = true → Narrows t c d → Narrows t (.array c) (.array d)
  | array {c : JType} {kind : NamedKind} {n : String} : n ∈ WellKnown.arraySupertypes → Narrows t (.array c) (.named kind n)
  | name {kind kind' : NamedKind} {m n : String} : t.LeadsTo m n → Narrows t (.named kind m) (.named kind' n)

/-- The subtypes of a type are those that narrow it. -/
theorem isSubtype_iff_narrows : t.isSubtype a b = true ↔ t.Narrows a b := by
  constructor
  · intro h
    induction a generalizing b with
    | prim p => exact .same (by simpa [isSubtype] using h)
    | void => exact .same (by simpa [isSubtype] using h)
    | named k m =>
      cases b with
      | named l n =>
        rw [isSubtype_named, Bool.or_eq_true, decide_eq_true_eq, decide_eq_true_eq] at h
        exact .name h
      | _ => exact .same (by simpa [isSubtype] using h)
    | array c ih =>
      cases b with
      | array d =>
        cases hd : d.isReference with
        | true =>
          rw [isSubtype_array t hd, Bool.and_eq_true] at h
          exact .component h.1 hd (ih h.2)
        | false => exact .same (by simpa [isSubtype, hd] using h)
      | named l n => exact .array (by simpa [isSubtype, JType.untag] using h)
      | _ => exact .same (by simpa [isSubtype] using h)
  · intro h
    induction h with
    | same h => exact t.isSubtype_of_equiv h
    | component hc hd _ h => rw [isSubtype_array t hd, hc, h, Bool.and_self]
    | array h => simp [isSubtype, h]
    | name h =>
      rw [isSubtype_named, Bool.or_eq_true, decide_eq_true_eq, decide_eq_true_eq]
      exact h

/-- Narrowing does not look at kinds. -/
theorem Narrows.congr {a' b' : JType} (h : t.Narrows a b) (ha : a ≈ a') (hb : b ≈ b') : t.Narrows a' b' := by
  rw [← isSubtype_iff_narrows] at h ⊢
  rw [← t.isSubtype_untag, ← t.isSubtype_untag_left, ← JType.equiv_def.mp ha, ← JType.equiv_def.mp hb, t.isSubtype_untag_left,
    t.isSubtype_untag]
  exact h

namespace StandardArrays

variable (h : t.StandardArrays)

include h

/-- What a name leads to leads on from there. The root class, to which every name leads, leads nowhere else. -/
theorem leadsTo_trans (hwhole : t.Whole l) (hlm : t.LeadsTo l m) (hmn : t.LeadsTo m n) : t.LeadsTo l n := by
  rcases hmn with hobject | hmn
  · exact .inl hobject
  · have hreaches := reaches_of_mem_supertypes hmn
    rcases hlm with hobject | hlm
    · rw [hobject] at hreaches
      exact .inl (h.eq_object_of_reaches hreaches)
    · exact .inr ((mem_supertypes_iff hwhole).mpr ((reaches_of_mem_supertypes hlm).trans hreaches))

/-- A supertype of all arrays leads to such types only. -/
theorem mem_of_leadsTo (hm : m ∈ WellKnown.arraySupertypes) (hmn : t.LeadsTo m n) : n ∈ WellKnown.arraySupertypes := by
  refine h.mem_of_canonicalName_mem ?_
  rcases hmn with hobject | hmn
  · rw [hobject]
    exact List.mem_cons_self
  · have hreaches := reaches_of_mem_supertypes hmn
    rw [h.canonicalName_eq hm] at hreaches
    exact h.mem_of_reaches hm hreaches

/-- Narrowing is transitive. The induction is on how the first type narrows the second, for every third type. -/
theorem narrows_trans (hwhole : ∀ name, t.Whole name) (hab : t.Narrows a b) (hbc : t.Narrows b c) : t.Narrows a c := by
  induction hab generalizing c with
  | same hab => exact hbc.congr (Setoid.symm hab) (Setoid.refl c)
  | component hc hd hab ih =>
    cases hbc with
    | same hbc => exact (Narrows.component hc hd hab).congr (Setoid.refl _) hbc
    | component _ he hbc => exact .component hc he (ih hbc)
    | array hn => exact .array hn
  | array hm =>
    cases hbc with
    | same hbc => exact (Narrows.array hm).congr (Setoid.refl _) hbc
    | name hmn => exact .array (h.mem_of_leadsTo hm hmn)
  | name hlm =>
    cases hbc with
    | same hbc => exact (Narrows.name hlm).congr (Setoid.refl _) hbc
    | name hmn => exact .name (h.leadsTo_trans (hwhole _) hlm hmn)

end StandardArrays

/-! ## Subtypes and arguments -/

/-- A value may be passed for a reference when its type, boxed if it is primitive, is a subtype. -/
theorem isAssignable_eq_isSubtype_boxed (t : ClassTable) (a : JType) (hb : b.isReference = true) :
    t.isAssignable a b = t.isSubtype a.boxed b := by
  have hprim : ∀ p, t.isSubtype (.prim p) b = false := by
    intro p
    cases b <;> simp_all [isSubtype, JType.untag, JType.isReference]
  cases b with
  | prim q => cases hb
  | void => cases hb
  | named k n => cases a <;> simp [isAssignable, JType.boxed, hprim]
  | array d => cases a <;> simp [isAssignable, JType.boxed, hprim]

/-- Where the supertypes of all arrays are those of the platform and no walk is cut off, every type is a subtype of itself, a subtype of a
subtype is a subtype, and what may be passed for a reference may be passed for every supertype of it. -/
theorem isPreorder_isSubtype (h : t.StandardArrays) (hwhole : ∀ name, t.Whole name) :
    IsPreorder JType (fun a b => t.isSubtype a b = true) ∧ ∀ a b c : JType, b.isReference = true → c.isReference = true →
      t.isAssignable a b = true → t.isSubtype b c = true → t.isAssignable a c = true := by
  have htrans : ∀ a b c, t.isSubtype a b = true → t.isSubtype b c = true → t.isSubtype a c = true := by
    intro a b c hab hbc
    rw [isSubtype_iff_narrows] at hab hbc ⊢
    exact h.narrows_trans hwhole hab hbc
  refine ⟨{ refl := fun a => t.isSubtype_of_equiv (Setoid.refl a), trans := htrans }, fun a b c hb hc hab hbc => ?_⟩
  rw [isAssignable_eq_isSubtype_boxed t a hb] at hab
  rw [isAssignable_eq_isSubtype_boxed t a hc]
  exact htrans _ b c hab hbc

/-- The platform types, with `p/Text` for strings and `p/Ordered` for what can be compared. -/
def sampleAliased : ClassTable :=
  .registerAll .empty (platformTypes ++ [.ofAlias "p/Text" WellKnown.string, .ofAlias "p/Ordered" WellKnown.comparable])

/-- An array of arrays of strings is an array of what can be cloned, so an array of objects; an `int` may be passed for its wrapper class,
so for what can be compared. -/
theorem isPreorder_isSubtype_sampleAliased : sampleAliased.StandardArrays ∧ (∀ name, sampleAliased.Whole name) ∧
    sampleAliased.isSubtype (.array (.array (.ofClass "p/Text"))) (.array .object) = true ∧
    sampleAliased.isAssignable .int (.ofInterface "p/Ordered") = true := by
  have harrays : sampleAliased.StandardArrays := by
    refine ⟨by decide +kernel, fun name decl hdecl halias => ?_⟩
    have haliases : ∀ decl ∈ platformTypes ++ [.ofAlias "p/Text" WellKnown.string, .ofAlias "p/Ordered" WellKnown.comparable],
        decl.aliasOf ≠ none → sampleAliased.canonicalName decl.name ∉ WellKnown.arraySupertypes := by
      decide +kernel
    rw [← name_of_get? hdecl]
    exact haliases decl (mem_of_get?_empty_registerAll hdecl) halias
  have hwhole : ∀ name, sampleAliased.Whole name := whole_registerAll (by decide +kernel)
  obtain ⟨hpreorder, hpasses⟩ := isPreorder_isSubtype harrays hwhole
  refine ⟨harrays, hwhole, hpreorder.trans _ (.array (.ofInterface WellKnown.cloneable)) _ ?_ ?_,
    hpasses .int (.ofClass Primitive.int.wrapper) _ rfl rfl ?_ ?_⟩
  · decide +kernel
  · decide +kernel
  · decide +kernel
  · decide +kernel

end ClassTable

end Linkage
