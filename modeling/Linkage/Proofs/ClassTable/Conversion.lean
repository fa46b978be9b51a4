import Linkage.ClassTable.Conversion
import Linkage.ClassTable.Platform
import Linkage.Proofs.Descriptor
import Mathlib.Data.List.Forall2

/-!
# Conversions and names

Subtyping does not look at the kinds of named types, and resolving a type leaves no alias in it. A type whose names fit into descriptors
(`Describable`) keeps that when it is resolved against types whose names do.
-/

namespace Linkage

/-- A wrapper class is the one of the type it wraps. -/
theorem Primitive.wrapper_of_ofWrapper? {p : Primitive} {name : String} (h : ofWrapper? name = some p) : p.wrapper = name := by
  have := List.find?_some h
  exact of_decide_eq_true this

namespace JType

/-- Taking the kinds away once is enough. -/
@[simp] theorem untag_untag (t : JType) : t.untag.untag = t.untag := by
  induction t with
  | prim p => rfl
  | named k n => rfl
  | array c ih => simp [untag, ih]
  | void => rfl

/-- A reference stays one without its kinds. -/
@[simp] theorem isReference_untag (t : JType) : t.untag.isReference = t.isReference := by
  cases t <;> rfl

end JType

/-- The name of a declaration can stand in a descriptor, and its constructors have such parameter types and no result. -/
def ClassDecl.Describable (decl : ClassDecl) : Prop :=
  JType.IsName decl.name ∧ ∀ m ∈ decl.methods, m.isConstructor = true →
    m.result = .void ∧ ∀ type ∈ m.paramTypes, type.Describable

instance (decl : ClassDecl) : Decidable decl.Describable :=
  inferInstanceAs (Decidable (_ ∧ ∀ m ∈ decl.methods, m.isConstructor = true →
    m.result = .void ∧ ∀ type ∈ m.paramTypes, type.Describable))

namespace ClassTable

/-- Types that are the same but for kinds are subtypes of each other. -/
theorem isSubtype_of_equiv (t : ClassTable) {source target : JType} (h : source ≈ target) : t.isSubtype source target = true := by
  have huntag := JType.equiv_def.mp h
  unfold isSubtype
  simp only [JType.equiv_def, huntag, decide_true, Bool.true_or]

/-- The kinds of the target do not matter to subtyping. -/
theorem isSubtype_untag (t : ClassTable) (source target : JType) : t.isSubtype source target.untag = t.isSubtype source target := by
  induction source generalizing target with
  | array c ih =>
    cases target <;> simp only [isSubtype, JType.equiv_def, JType.untag, JType.untag_untag, JType.isReference_untag, ih]
  | named k m => cases target <;> simp only [isSubtype, JType.equiv_def, JType.untag, JType.untag_untag]
  | prim p => cases target <;> simp only [isSubtype, JType.equiv_def, JType.untag, JType.untag_untag]
  | void => cases target <;> simp only [isSubtype, JType.equiv_def, JType.untag, JType.untag_untag]

/-- The kinds of the source do not matter to subtyping either. -/
theorem isSubtype_untag_left (t : ClassTable) (source target : JType) :
    t.isSubtype source.untag target = t.isSubtype source target := by
  induction source generalizing target with
  | array c ih =>
    cases target <;> simp only [isSubtype, JType.equiv_def, JType.untag, JType.untag_untag, JType.isReference_untag, ih]
  | named k m => cases target <;> simp only [isSubtype, JType.equiv_def, JType.untag]
  | prim p => rfl
  | void => rfl

/-! ## Passing arguments -/

/-- Types that are the same but for kinds may be passed for each other. -/
theorem isAssignable_of_equiv (t : ClassTable) {source target : JType} (h : source ≈ target) : t.isAssignable source target = true := by
  unfold isAssignable
  rw [t.isSubtype_of_equiv h, Bool.true_or]

/-- Every type may be passed for itself. -/
theorem isAssignable_refl (t : ClassTable) (type : JType) : t.isAssignable type type = true :=
  t.isAssignable_of_equiv (Setoid.refl type)

/-- Arguments may be passed for parameters: there are as many, and each is assignable to the parameter in its place. -/
def Passes (t : ClassTable) (args params : List Param) : Prop :=
  List.Forall₂ (fun arg param => t.isAssignable arg.type param.type = true) args params

/-- Parameters may be passed for themselves. -/
theorem Passes.refl (t : ClassTable) (params : List Param) : t.Passes params params :=
  List.forall₂_same.mpr fun p _ => t.isAssignable_refl p.type

/-- Arguments are accepted when they may be passed. -/
theorem accepts_iff_passes {t : ClassTable} {args params : List Param} : t.accepts args params = true ↔ t.Passes args params := by
  induction args generalizing params with
  | nil => cases params <;> simp [accepts, Passes]
  | cons arg args ih =>
    cases params with
    | nil => simp [accepts, Passes]
    | cons param params =>
      simp only [accepts, Bool.and_eq_true, ih, Passes, List.forall₂_cons]

/-! ## Resolved types -/

/-- Every registered declaration fits into descriptors. -/
def Describable (t : ClassTable) : Prop :=
  ∀ name decl, t.get? name = some decl → decl.Describable

variable {t : ClassTable} {target : JType}

/-- The name of a resolved type stands for itself. -/
theorem canonicalName_of_canonicalType {kind : NamedKind} {name : String} (h : t.canonicalType target = .named kind name) :
    t.canonicalName name = name := by
  cases target with
  | prim p => cases h
  | array c => cases h
  | void => cases h
  | named k n =>
    unfold canonicalType at h
    split at h
    · rename_i decl hdecl
      have hname : decl.name = name := by
        unfold ClassDecl.type JType.ofInterface JType.ofClass at h
        split at h
        · exact (JType.named.inj h).2
        · exact (JType.named.inj h).2
      rw [← hname, canonicalName, underlying?_of_underlying? hdecl]
    · rename_i hnone
      rw [← (JType.named.inj h).2, canonicalName, hnone]

/-- Resolving keeps a type describable. -/
theorem Describable.canonicalType (h : t.Describable) (htarget : target.Describable) : (t.canonicalType target).Describable := by
  induction target with
  | prim p => trivial
  | void => trivial
  | array c ih =>
    refine ⟨?_, ih htarget.2⟩
    have hc := htarget.1
    cases c with
    | prim p => simp [ClassTable.canonicalType]
    | array d => simp [ClassTable.canonicalType]
    | void => exact absurd rfl hc
    | named k n =>
      unfold ClassTable.canonicalType
      split
      · unfold ClassDecl.type JType.ofInterface JType.ofClass
        split <;> simp
      · simp
  | named k n =>
    unfold ClassTable.canonicalType
    split
    · rename_i decl hdecl
      have hname := (h decl.name decl (aliasOf_of_underlying? hdecl).2).1
      unfold ClassDecl.type JType.ofInterface JType.ofClass
      split
      · exact hname
      · exact hname
    · exact htarget

/-! ## Describable tables -/

/-- A table without classes is describable. -/
theorem describable_empty : empty.Describable := by
  intro name decl h
  simp [get?, empty] at h

/-- A describable table stays so with one more describable class. -/
theorem Describable.register (ht : t.Describable) {decl : ClassDecl} (hdecl : decl.Describable) : (t.register decl).Describable := by
  intro name d hd
  rw [get?_register] at hd
  split at hd
  · rw [← Option.some.inj hd]
    exact hdecl
  · exact ht name d hd

/-- A describable table stays so with more describable classes. -/
theorem Describable.registerAll (ht : t.Describable) {decls : List ClassDecl} (hdecls : ∀ decl ∈ decls, decl.Describable) :
    (t.registerAll decls).Describable := by
  induction decls generalizing t with
  | nil => exact ht
  | cons decl decls ih =>
    have hdecl := hdecls decl List.mem_cons_self
    exact ih (ht.register hdecl) fun d hd => hdecls d (List.mem_cons_of_mem decl hd)

/-- The platform types fit into descriptors. -/
theorem describable_platform : platform.Describable := by
  have htypes : ∀ decl ∈ platformTypes, decl.Describable := by decide +kernel
  exact describable_empty.registerAll htypes

end ClassTable

end Linkage
