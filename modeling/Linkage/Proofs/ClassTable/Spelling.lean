import Linkage.Proofs.ClassTable.Preorder

/-!
# Conversions and the spelling of names

A type may be written under its own name or under an alias of it. Conversions resolve names, but for two comparisons that take them as they
are written: that of an array with the names of the supertypes of all arrays, and that of a named type with the names of the wrapper
classes. Whether a conversion is possible does not depend on the spelling just where these comparisons do not
(`conversion_canonicalType`). An alias of the root class is no supertype of arrays, and one of a wrapper class is not unboxed
(`isSubtype_sampleSpelled`).
-/

namespace Linkage

namespace ClassTable

variable {n : String}

/-- Whether an object of a class may be passed for a value of a primitive type, by the name of the class. -/
def unboxesTo (className : String) (q : Primitive) : Bool :=
  (Primitive.ofWrapper? className).any fun p => p = q || p.widensTo q

/-- Where an array is compared with a name, the name is a supertype of all arrays as what it stands for is. -/
def ArraysSpelled (t : ClassTable) (a b : JType) : Prop :=
  ∀ n, a.facing? b = some n → (n ∈ WellKnown.arraySupertypes ↔ t.canonicalName n ∈ WellKnown.arraySupertypes)

/-- Where a named type is to be passed for a primitive one, the name is unboxed as what it stands for is. -/
def WrappersSpelled (t : ClassTable) (a b : JType) : Prop :=
  ∀ n q, a.internalName? = some n → b.primitive? = some q → unboxesTo n q = unboxesTo (t.canonicalName n) q

/-- Subtyping does not depend on the spelling of two types just where the comparison of arrays with names does not. -/
theorem isSubtype_canonicalType_both_iff (t : ClassTable) (a b : JType) :
    t.isSubtype (t.canonicalType a) (t.canonicalType b) = t.isSubtype a b ↔ t.ArraysSpelled a b := by
  rw [isSubtype_canonicalType_left]
  exact t.isSubtype_canonicalType_iff a b

/-- A named type is passed for a primitive one by unboxing. -/
theorem isAssignable_named_prim (t : ClassTable) (k : NamedKind) (n : String) (q : Primitive) :
    t.isAssignable (.named k n) (.prim q) = unboxesTo n q := by
  simp [isAssignable, isSubtype, JType.untag, unboxesTo]

theorem isSubtype_boxed_canonicalType (t : ClassTable) (a b : JType) :
    t.isSubtype (t.canonicalType a).boxed b = t.isSubtype a.boxed b := by
  cases a with
  | prim p => rfl
  | void => rfl
  | array c => exact t.isSubtype_canonicalType_left (.array c) b
  | named k n =>
    obtain ⟨k', hk'⟩ := t.exists_canonicalType_named k n
    have hboxed : (t.canonicalType (.named k n)).boxed = t.canonicalType (.named k n) := by
      rw [hk']
      rfl
    rw [hboxed]
    exact t.isSubtype_canonicalType_left (.named k n) b

/-- What may be passed does not depend on the spelling of two types just where neither of the two comparisons does. -/
theorem isAssignable_canonicalType_both_iff (t : ClassTable) (a b : JType) :
    t.isAssignable (t.canonicalType a) (t.canonicalType b) = t.isAssignable a b ↔ t.ArraysSpelled a b ∧ t.WrappersSpelled a b := by
  cases hb : b.isReference with
  | true =>
    have hprimitive : b.primitive? = none := by cases b <;> simp_all [JType.isReference, JType.primitive?]
    have hfacing : a.boxed.facing? b = a.facing? b := by cases a <;> rfl
    rw [isAssignable_eq_isSubtype_boxed t _ (by rw [isReference_canonicalType, hb]), isAssignable_eq_isSubtype_boxed t _ hb,
      isSubtype_boxed_canonicalType, isSubtype_canonicalType_iff, hfacing, ← ArraysSpelled]
    simp [WrappersSpelled, hprimitive]
  | false =>
    have hfacing : a.facing? b = none := by cases a <;> cases b <;> simp_all [JType.isReference, JType.facing?]
    have harrays : t.ArraysSpelled a b := by simp [ArraysSpelled, hfacing]
    rw [and_iff_right harrays]
    cases b with
    | named k n => cases hb
    | array d => cases hb
    | void =>
      have hvoid : ∀ c, t.isAssignable c .void = t.isSubtype c .void := by
        intro c
        cases c <;> simp [isAssignable]
      rw [canonicalType, hvoid, hvoid, isSubtype_canonicalType_left]
      simp [WrappersSpelled, JType.primitive?]
    | prim q =>
      cases a with
      | named k n =>
        obtain ⟨k', hk'⟩ := t.exists_canonicalType_named k n
        rw [hk', canonicalType, isAssignable_named_prim, isAssignable_named_prim]
        simp [WrappersSpelled, JType.internalName?, JType.primitive?, eq_comm]
      | _ => simp [canonicalType, isAssignable, isSubtype, JType.untag, WrappersSpelled, JType.internalName?]

/-- The names that conversions look for as they are written. -/
def spelledNames : List String :=
  WellKnown.arraySupertypes ++ Primitive.all.map Primitive.wrapper

theorem unboxesTo_of_not_mem (q : Primitive) (h : n ∉ spelledNames) : unboxesTo n q = false := by
  have hnone : Primitive.ofWrapper? n = none := by
    refine List.find?_eq_none.mpr fun p hp hwrapper => h (List.mem_append_right _ ?_)
    exact List.mem_map.mpr ⟨p, hp, of_decide_eq_true hwrapper⟩
  rw [unboxesTo, hnone, Option.any_none]

/-- Whether a conversion is possible does not depend on the spelling of two types just where the comparisons with fixed names do not. So
it never does where no alias has or stands for the name of a supertype of all arrays or of a wrapper class. -/
theorem conversion_canonicalType (t : ClassTable) :
    (∀ a b, (t.isSubtype (t.canonicalType a) (t.canonicalType b) = t.isSubtype a b ↔ t.ArraysSpelled a b) ∧
      (t.isAssignable (t.canonicalType a) (t.canonicalType b) = t.isAssignable a b ↔ t.ArraysSpelled a b ∧ t.WrappersSpelled a b)) ∧
    ((∀ n, t.canonicalName n ≠ n → n ∉ spelledNames ∧ t.canonicalName n ∉ spelledNames) → ∀ a b,
      t.isSubtype (t.canonicalType a) (t.canonicalType b) = t.isSubtype a b ∧
      t.isAssignable (t.canonicalType a) (t.canonicalType b) = t.isAssignable a b) := by
  refine ⟨fun a b => ⟨t.isSubtype_canonicalType_both_iff a b, t.isAssignable_canonicalType_both_iff a b⟩, fun halias a b => ?_⟩
  have harrays : t.ArraysSpelled a b := by
    intro n _
    by_cases hsame : t.canonicalName n = n
    · rw [hsame]
    · obtain ⟨hn, hcanonical⟩ := halias n hsame
      exact iff_of_false (fun h => hn (List.mem_append_left _ h)) fun h => hcanonical (List.mem_append_left _ h)
  have hwrappers : t.WrappersSpelled a b := by
    intro n q _ _
    by_cases hsame : t.canonicalName n = n
    · rw [hsame]
    · obtain ⟨hn, hcanonical⟩ := halias n hsame
      rw [unboxesTo_of_not_mem q hn, unboxesTo_of_not_mem q hcanonical]
  exact ⟨(t.isSubtype_canonicalType_both_iff a b).mpr harrays, (t.isAssignable_canonicalType_both_iff a b).mpr ⟨harrays, hwrappers⟩⟩

/-- Where the aliases stand for strings and for what can be compared, an array of them may be written either way. -/
theorem conversion_canonicalType_sampleAliased :
    (∀ n, sampleAliased.canonicalName n ≠ n → n ∉ spelledNames ∧ sampleAliased.canonicalName n ∉ spelledNames) ∧
    sampleAliased.isSubtype (.array .string) (.array (.ofInterface WellKnown.comparable)) =
      sampleAliased.isSubtype (.array (.ofClass "p/Text")) (.array (.ofInterface "p/Ordered")) := by
  have haliases : ∀ n, sampleAliased.canonicalName n ≠ n → n ∉ spelledNames ∧ sampleAliased.canonicalName n ∉ spelledNames := by
    intro n hne
    obtain ⟨decl, hdecl, halias⟩ := exists_alias_of_canonicalName_ne hne
    have hdecls : ∀ decl ∈ platformTypes ++ [.ofAlias "p/Text" WellKnown.string, .ofAlias "p/Ordered" WellKnown.comparable],
        decl.aliasOf ≠ none → decl.name ∉ spelledNames ∧ sampleAliased.canonicalName decl.name ∉ spelledNames := by
      decide +kernel
    rw [← name_of_get? hdecl]
    exact hdecls decl (mem_of_get?_empty_registerAll hdecl) halias
  have hsource : sampleAliased.canonicalType (.array (.ofClass "p/Text")) = .array .string := by decide +kernel
  have htarget : sampleAliased.canonicalType (.array (.ofInterface "p/Ordered")) = .array (.ofInterface WellKnown.comparable) := by
    decide +kernel
  have hspelling := ((conversion_canonicalType sampleAliased).2 haliases (.array (.ofClass "p/Text")) (.array (.ofInterface "p/Ordered"))).1
  rw [hsource, htarget] at hspelling
  exact ⟨haliases, hspelling⟩

/-- The platform types, with `p/Root` for the root class and `p/Count` for the wrapper class of `int`. -/
def sampleSpelled : ClassTable :=
  .registerAll .empty (platformTypes ++ [.ofAlias "p/Root" WellKnown.object, .ofAlias "p/Count" Primitive.int.wrapper])

/-- Every array is an object, and what `int` is wrapped in is unboxed, but neither under the alias. -/
theorem isSubtype_sampleSpelled :
    sampleSpelled.canonicalType (.ofClass "p/Root") = .object ∧
    sampleSpelled.canonicalType (.ofClass "p/Count") = .ofClass Primitive.int.wrapper ∧
    sampleSpelled.isSubtype (sampleSpelled.canonicalType (.array .int)) (sampleSpelled.canonicalType (.ofClass "p/Root")) = true ∧
    sampleSpelled.isSubtype (.array .int) (.ofClass "p/Root") = false ∧
    sampleSpelled.isAssignable (sampleSpelled.canonicalType (.array .int)) (sampleSpelled.canonicalType (.ofClass "p/Root")) = true ∧
    sampleSpelled.isAssignable (.array .int) (.ofClass "p/Root") = false ∧
    sampleSpelled.isAssignable (sampleSpelled.canonicalType (.ofClass "p/Count")) (sampleSpelled.canonicalType .int) = true ∧
    sampleSpelled.isAssignable (.ofClass "p/Count") .int = false := by
  decide +kernel

end ClassTable

end Linkage
