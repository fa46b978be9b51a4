import Linkage.Proofs.ClassTable.Resolved

/-!
# The normal form of a type

Resolving brings a type into a normal form: no name in it is an alias of another type. A type is in normal form just when resolving
gives it back, but for kinds (`canonicalType_equiv_iff`). What resolving must not lose is said in `Normalizes`: the array levels, the
primitive behind them, and the subtypes and supertypes.
-/

namespace Linkage

namespace JType

/-- The type behind all array levels. -/
def innermost : JType → JType
  | array c => c.innermost
  | t => t

/-- The name at the core of a type is that of its innermost type. -/
theorem internalName?_innermost (type : JType) : type.innermost.internalName? = type.coreName? := by
  induction type with
  | array c ih => exact ih
  | prim p => rfl
  | named k n => rfl
  | void => rfl

/-- No array in a type is compared with a name in the same type: all array levels are matched by array levels. -/
theorem facing?_self (type : JType) : type.facing? type = none := by
  induction type with
  | array c ih => exact ih
  | prim p => rfl
  | named k n => rfl
  | void => rfl

/-- Types are the same, but for kinds, when they have the same array levels and behind these the same primitive, the same name or
neither. -/
theorem equiv_of_core {a b : JType} (hdimensions : a.dimensions = b.dimensions)
    (hprimitive : a.innermost.primitive? = b.innermost.primitive?) (hname : a.coreName? = b.coreName?) : a ≈ b := by
  induction a generalizing b with
  | array c ih =>
    cases b with
    | array d => exact congrArg array (ih (Nat.succ.inj hdimensions) hprimitive hname)
    | _ => cases hdimensions
  | prim p =>
    cases b with
    | prim q => exact congrArg prim (Option.some.inj hprimitive)
    | array d => cases hdimensions
    | _ => cases hprimitive
  | named k m =>
    cases b with
    | named l n => exact congrArg (named .ofClass) (Option.some.inj hname)
    | array d => cases hdimensions
    | _ => cases hname
  | void =>
    cases b with
    | void => rfl
    | prim q => cases hprimitive
    | named l n => cases hname
    | array d => cases hdimensions

end JType

namespace ClassTable

variable (t : ClassTable)

/-- No name in a type stands for a type of another name. -/
def IsNormal (type : JType) : Prop :=
  ∀ n, type.coreName? = some n → ∀ decl, t.underlying? n = some decl → decl.name = n

/-! ## What resolving does at the core of a type -/

theorem dimensions_canonicalType (type : JType) : (t.canonicalType type).dimensions = type.dimensions := by
  induction type with
  | prim p => rfl
  | void => rfl
  | array c ih => exact congrArg (· + 1) ih
  | named k n =>
    obtain ⟨k', hk'⟩ := t.exists_canonicalType_named k n
    rw [hk']
    rfl

/-- Only the innermost type is resolved. -/
theorem innermost_canonicalType (type : JType) : (t.canonicalType type).innermost = t.canonicalType type.innermost := by
  induction type with
  | prim p => rfl
  | void => rfl
  | array c ih => exact ih
  | named k n =>
    obtain ⟨k', hk'⟩ := t.exists_canonicalType_named k n
    have hself : (JType.named k n).innermost = .named k n := rfl
    rw [hself, hk']
    rfl

theorem primitive?_canonicalType (type : JType) : (t.canonicalType type).primitive? = type.primitive? := by
  cases type with
  | prim p => rfl
  | void => rfl
  | array c => rfl
  | named k n =>
    obtain ⟨k', hk'⟩ := t.exists_canonicalType_named k n
    rw [hk']
    rfl

theorem coreName?_canonicalType (type : JType) : (t.canonicalType type).coreName? = type.coreName?.map t.canonicalName := by
  rw [← JType.internalName?_innermost, innermost_canonicalType, internalName?_canonicalType, JType.internalName?_innermost]

/-! ## Normal types -/

/-- A name stands for itself unless it stands for a type of another name. -/
theorem canonicalName_eq_self_iff (name : String) :
    t.canonicalName name = name ↔ ∀ decl, t.underlying? name = some decl → decl.name = name := by
  unfold canonicalName
  cases t.underlying? name with
  | none => simp
  | some decl => simp

/-- In a normal type every name stands for itself. -/
theorem isNormal_iff (type : JType) : t.IsNormal type ↔ ∀ n, type.coreName? = some n → t.canonicalName n = n :=
  forall₂_congr fun n _ => (t.canonicalName_eq_self_iff n).symm

/-- A type is normal just when resolving it changes nothing but the kind under which a name in it was written. -/
theorem canonicalType_equiv_iff (type : JType) : t.canonicalType type ≈ type ↔ t.IsNormal type := by
  rw [isNormal_iff]
  induction type with
  | prim p => exact iff_of_true rfl fun n hn => nomatch hn
  | void => exact iff_of_true rfl fun n hn => nomatch hn
  | array c ih =>
    rw [← JType.coreName?.eq_1] at ih
    rw [← ih, canonicalType, JType.equiv_def, JType.equiv_def, JType.untag, JType.untag, JType.array.injEq]
  | named k n =>
    obtain ⟨k', hk'⟩ := t.exists_canonicalType_named k n
    simp [hk', JType.untag, JType.coreName?, JType.internalName?]

/-- A type that resolving gives back is normal. -/
theorem isNormal_of_canonicalType_eq {type : JType} (h : t.canonicalType type = type) : t.IsNormal type := by
  have hsame : t.canonicalType type ≈ type := JType.equiv_def.mpr (congrArg JType.untag h)
  exact (t.canonicalType_equiv_iff type).mp hsame

/-! ## Resolving as a normal form -/

/-- The second type is a normal form of the first: it has the array levels of the first, its innermost type, and the name that the
name there stands for; no name in it stands for another type, and resolving gives it back; and values of each are values of the
other. -/
structure Normalizes (type normal : JType) : Prop where
  dimensions : normal.dimensions = type.dimensions
  primitive : normal.innermost.primitive? = type.innermost.primitive?
  name : normal.coreName? = type.coreName?.map t.canonicalName
  isNormal : t.IsNormal normal
  fixed : t.canonicalType normal = normal
  narrower : t.isSubtype normal type = true
  wider : t.isSubtype type normal = true

variable {t} in
/-- A type has one normal form, but for kinds. -/
theorem Normalizes.equiv {type normal other : JType} (h : t.Normalizes type normal) (hother : t.Normalizes type other) :
    normal ≈ other :=
  JType.equiv_of_core (h.dimensions.trans hother.dimensions.symm) (h.primitive.trans hother.primitive.symm)
    (h.name.trans hother.name.symm)

/-- Resolving a type gives a normal form of it, whatever its names stand for: a class, an interface, nothing, an alias, or the start of
more aliases than are followed. -/
theorem normalizes_canonicalType (type : JType) : t.Normalizes type (t.canonicalType type) where
  dimensions := t.dimensions_canonicalType type
  primitive := by rw [innermost_canonicalType, primitive?_canonicalType]
  name := t.coreName?_canonicalType type
  isNormal := t.isNormal_of_canonicalType_eq (t.canonicalType_canonicalType type)
  fixed := t.canonicalType_canonicalType type
  narrower := by
    rw [isSubtype_canonicalType_left]
    exact t.isSubtype_of_equiv (Setoid.refl type)
  wider := by
    have hsame : t.isSubtype type (t.canonicalType type) = t.isSubtype type type := by
      rw [isSubtype_canonicalType_iff]
      intro n hn
      rw [JType.facing?_self] at hn
      cases hn
    rw [hsame]
    exact t.isSubtype_of_equiv (Setoid.refl type)

end ClassTable

end Linkage
