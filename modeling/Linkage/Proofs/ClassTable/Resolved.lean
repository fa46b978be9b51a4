import Linkage.ClassTable.Members
import Linkage.Proofs.ClassTable.BreadthFirst
import Linkage.Proofs.ClassTable.Conversion

/-!
# Names that stand for the same type

Look-ups follow aliases first, so they find the same under every name of a type: its declaration, its place in the hierarchy, its
members. Subtyping does so too but for one comparison, that of an array with a named type (`isSubtype_canonicalType_iff`).
-/

namespace Linkage

namespace JType

/-- The name at the core of a type, behind all array levels. -/
def coreName? : JType → Option String
  | array c => c.coreName?
  | t => t.internalName?

/-- The name that an array in the first type is compared with in the second, behind the array levels that both have. -/
def facing? : JType → JType → Option String
  | array c, array d => c.facing? d
  | array _, named _ n => some n
  | _, _ => none

/-- An array is compared with the name at the core of a type, if with any. -/
theorem coreName?_of_facing? {source target : JType} {n : String} (h : source.facing? target = some n) : target.coreName? = some n := by
  induction source generalizing target with
  | array c ih =>
    cases target with
    | array d => exact @ih d h
    | named k m => exact h
    | prim p => cases h
    | void => cases h
  | named k m => cases h
  | prim p => cases h
  | void => cases h

end JType

namespace ClassTable

variable (t : ClassTable)

/-! ## Resolving -/

/-- A name and what it stands for have the same declaration. -/
@[simp] theorem underlying?_canonicalName (name : String) : t.underlying? (t.canonicalName name) = t.underlying? name := by
  unfold canonicalName
  cases h : t.underlying? name with
  | none => exact h
  | some decl => exact underlying?_of_underlying? h

/-- What a name stands for stands for itself. -/
@[simp] theorem canonicalName_canonicalName (name : String) : t.canonicalName (t.canonicalName name) = t.canonicalName name := by
  rw [canonicalName, underlying?_canonicalName]
  unfold canonicalName
  cases t.underlying? name <;> rfl

variable {t} in
/-- A name that stands for another one is that of an alias. -/
theorem exists_alias_of_canonicalName_ne {name : String} (h : t.canonicalName name ≠ name) :
    ∃ decl, t.get? name = some decl ∧ decl.aliasOf ≠ none := by
  cases hdecl : t.get? name with
  | none => simp [canonicalName, underlying?, follow, hdecl] at h
  | some decl =>
    refine ⟨decl, rfl, fun hnone => h ?_⟩
    rw [canonicalName, underlying?_of_get? hdecl hnone]
    exact name_of_get? hdecl

/-- A declaration declares a type of its own name. -/
theorem exists_type_eq_named (decl : ClassDecl) : ∃ kind, decl.type = .named kind decl.name := by
  unfold ClassDecl.type
  split
  · exact ⟨.ofInterface, rfl⟩
  · exact ⟨.ofClass, rfl⟩

variable {t} in
/-- A name with a declaration becomes the declared type. -/
theorem canonicalType_of_underlying? {name : String} {decl : ClassDecl} (h : t.underlying? name = some decl) (kind : NamedKind) :
    t.canonicalType (.named kind name) = decl.type := by
  simp only [canonicalType, h]

/-- A named type is resolved to a named type, with the name that its name stands for. -/
theorem exists_canonicalType_named (kind : NamedKind) (name : String) :
    ∃ kind', t.canonicalType (.named kind name) = .named kind' (t.canonicalName name) := by
  unfold canonicalType canonicalName
  cases t.underlying? name with
  | none => exact ⟨kind, rfl⟩
  | some decl => exact exists_type_eq_named decl

/-- Resolving once is enough. -/
@[simp] theorem canonicalType_canonicalType (type : JType) : t.canonicalType (t.canonicalType type) = t.canonicalType type := by
  induction type with
  | prim p => rfl
  | void => rfl
  | array c ih => rw [canonicalType, canonicalType, ih]
  | named k n =>
    cases h : t.underlying? n with
    | none =>
      have hsame : t.canonicalType (.named k n) = .named k n := by simp only [canonicalType, h]
      rw [hsame, hsame]
    | some decl =>
      obtain ⟨kind, hkind⟩ := exists_type_eq_named decl
      rw [canonicalType_of_underlying? h, hkind, canonicalType_of_underlying? (underlying?_of_underlying? h), hkind]

/-- The internal name of a type, aliases followed. -/
theorem internalName?_canonicalType (type : JType) : (t.canonicalType type).internalName? = type.internalName?.map t.canonicalName := by
  cases type with
  | prim p => rfl
  | void => rfl
  | array c => rfl
  | named k n =>
    obtain ⟨k', hk'⟩ := t.exists_canonicalType_named k n
    rw [hk']
    rfl

/-- Following aliases, a reference stays one. -/
theorem isReference_canonicalType (type : JType) : (t.canonicalType type).isReference = type.isReference := by
  cases type with
  | prim p => rfl
  | void => rfl
  | array c => rfl
  | named k n =>
    obtain ⟨k', hk'⟩ := t.exists_canonicalType_named k n
    rw [hk']
    rfl

/-! ## Look-ups -/

/-- A name and what it stands for have the same chain. -/
@[simp] theorem lineage_canonicalName (name : String) : t.lineage (t.canonicalName name) = t.lineage name := by
  rw [lineage, canonicalName_canonicalName, lineage]

/-- A name and what it stands for have the same supertypes. -/
@[simp] theorem supertypes_canonicalName (name : String) : t.supertypes (t.canonicalName name) = t.supertypes name := by
  rw [supertypes, canonicalName_canonicalName, supertypes]

/-- A name and what it stands for have the same members. -/
@[simp] theorem members_canonicalName (name member : String) : t.members (t.canonicalName name) member = t.members name member := by
  simp only [members, declaredMembers, memberOrder, lineage_canonicalName, supertypes_canonicalName, canonicalName_canonicalName]

/-- The lineage of a name starts with what the name stands for. -/
theorem head?_lineage (name : String) : (t.lineage name).head? = some (t.canonicalName name) := by
  rw [lineage, hierarchyLimit, climb, if_neg (by simp), List.head?_cons]

/-- Every type is among its supertypes, first. -/
theorem canonicalName_mem_supertypes (name : String) : t.canonicalName name ∈ t.supertypes name := by
  rw [supertypes_eq_cons]
  exact List.mem_cons_self

/-! ## Subtyping -/

/-- Whether one named type is a subtype of another shows by what their names stand for. -/
theorem isSubtype_named (k l : NamedKind) (m n : String) :
    t.isSubtype (.named k m) (.named l n) = (t.canonicalName n = WellKnown.object || t.canonicalName n ∈ t.supertypes m) := by
  unfold isSubtype
  by_cases h : m = n
  · subst h
    have hsame : JType.named k m ≈ JType.named l m := rfl
    rw [decide_eq_true hsame, decide_eq_true (t.canonicalName_mem_supertypes m), Bool.true_or, Bool.or_true]
  · have hne : ¬ JType.named k m ≈ JType.named l n := by
      rw [JType.equiv_def]
      intro heq
      exact h (JType.named.inj heq).2
    rw [decide_eq_false hne, Bool.false_or]

/-- Arrays of references are subtypes of each other as their components are. -/
theorem isSubtype_array {c d : JType} (hd : d.isReference = true) :
    t.isSubtype (.array c) (.array d) = (c.isReference && t.isSubtype c d) := by
  have hstep : t.isSubtype (.array c) (.array d) = (decide (c ≈ d) || (c.isReference && d.isReference && t.isSubtype c d)) := by
    conv_lhs => unfold isSubtype
    simp only [JType.equiv_def, JType.untag, JType.array.injEq]
  rw [hstep, hd, Bool.and_true]
  by_cases h : c ≈ d
  · have hc : c.isReference = true := by
      rw [← JType.isReference_untag, JType.equiv_def.mp h, JType.isReference_untag, hd]
    rw [hc, t.isSubtype_of_equiv h, decide_eq_true h]
    rfl
  · rw [decide_eq_false h, Bool.false_or]

/-- Arrays are subtypes of each other just when their components are. -/
theorem isSubtype_component (c d : JType) : t.isSubtype (.array c) (.array d) = t.isSubtype c d := by
  cases hd : d.isReference with
  | true =>
    rw [isSubtype_array t hd]
    cases c with
    | prim p => cases d <;> simp_all [isSubtype, JType.untag, JType.isReference]
    | void => cases d <;> simp_all [isSubtype, JType.untag, JType.isReference]
    | named k n => rfl
    | array c => rfl
  | false => cases d <;> simp_all [isSubtype, JType.untag, JType.isReference]

/-- An array is a subtype of a named type that is a supertype of all arrays by its name. -/
theorem isSubtype_array_named (c : JType) (k : NamedKind) (n : String) :
    t.isSubtype (.array c) (.named k n) = decide (n ∈ WellKnown.arraySupertypes) := by
  simp [isSubtype, JType.untag]

/-- A source may be resolved. -/
theorem isSubtype_canonicalType_left (source target : JType) :
    t.isSubtype (t.canonicalType source) target = t.isSubtype source target := by
  induction source generalizing target with
  | prim p => rfl
  | void => rfl
  | named k m =>
    obtain ⟨k', hk'⟩ := t.exists_canonicalType_named k m
    rw [hk']
    cases target with
    | named l n => simp only [isSubtype_named, supertypes_canonicalName]
    | _ => simp [isSubtype, JType.untag]
  | array c ih =>
    rw [canonicalType]
    cases target with
    | array d => rw [isSubtype_component, isSubtype_component, ih]
    | named l n => rw [isSubtype_array_named, isSubtype_array_named]
    | _ => simp [isSubtype, JType.untag]

/-- A target may be resolved just when every name that an array is compared with there is a supertype of all arrays as what it stands for
is. -/
theorem isSubtype_canonicalType_iff (source target : JType) :
    t.isSubtype source (t.canonicalType target) = t.isSubtype source target ↔
      ∀ n, source.facing? target = some n → (n ∈ WellKnown.arraySupertypes ↔ t.canonicalName n ∈ WellKnown.arraySupertypes) := by
  induction source generalizing target with
  | array c ih =>
    cases target with
    | array d =>
      rw [canonicalType, isSubtype_component, isSubtype_component, ih]
      rfl
    | named l n =>
      obtain ⟨l', hl'⟩ := t.exists_canonicalType_named l n
      rw [hl', isSubtype_array_named, isSubtype_array_named, decide_eq_decide]
      simp only [JType.facing?, Option.some.injEq, forall_eq']
      exact iff_comm
    | prim p => simp [canonicalType, JType.facing?]
    | void => simp [canonicalType, JType.facing?]
  | named k m =>
    cases target with
    | named l n =>
      obtain ⟨l', hl'⟩ := t.exists_canonicalType_named l n
      simp [hl', isSubtype_named, JType.facing?]
    | _ => simp [isSubtype, JType.untag, canonicalType, JType.facing?]
  | _ =>
    cases target with
    | named l n =>
      obtain ⟨l', hl'⟩ := t.exists_canonicalType_named l n
      simp [hl', isSubtype, JType.untag, JType.facing?]
    | _ => simp [isSubtype, JType.untag, canonicalType, JType.facing?]

/-- A target may be resolved, unless an array is compared with a named type that is a supertype of all arrays under one name only. -/
theorem isSubtype_canonicalType (source : JType) {target : JType}
    (h : ∀ n, target.coreName? = some n → (n ∈ WellKnown.arraySupertypes ↔ t.canonicalName n ∈ WellKnown.arraySupertypes)) :
    t.isSubtype source (t.canonicalType target) = t.isSubtype source target :=
  (t.isSubtype_canonicalType_iff source target).mpr fun n hn => h n (JType.coreName?_of_facing? hn)

end ClassTable

end Linkage
