import Linkage.FunctionalInterface
import Linkage.Proofs.ClassTable.Conversion

/-!
# Exact parameters

The types inferred at a reference are laid over the parameters of an interface method. Whatever was inferred, the method keeps its shape:
as many parameters, each primitive or a reference as declared, each with a subtype of the declared type once both are boxed.
-/

namespace Linkage

/-- A parameter that is used in place of a declared one: it is of the same kind, primitive or not, and takes a subtype, boxing
apart. -/
structure Param.Specialises (classes : ClassTable) (declared exact : Param) : Prop where
  kind : exact.type.isPrimitive = declared.type.isPrimitive
  subtype : classes.isSubtype exact.type.boxed declared.type.boxed = true

theorem Param.Specialises.refl (classes : ClassTable) (p : Param) : p.Specialises classes p :=
  ⟨rfl, classes.isSubtype_of_equiv (Setoid.refl _)⟩

/-- The wrapper class of the primitive type that a type unboxes to is the type itself. -/
theorem JType.boxed_of_unboxed? {t : JType} {p : Primitive} (h : t.unboxed? = some p) : (JType.prim p).boxed = t.untag := by
  obtain ⟨name, hname, hwrapper⟩ := Option.bind_eq_some_iff.mp h
  cases t with
  | named k n =>
    cases hname
    rw [boxed, Primitive.wrapper_of_ofWrapper? hwrapper]
    rfl
  | prim q => cases hname
  | array c => cases hname
  | void => cases hname

/-- The type that a slot takes when a type is inferred for it. The slot stays of the declared kind: the inferred type is boxed or unboxed for
that, and a type that cannot be unboxed leaves the declared one. -/
inductive JType.Converts (declared inferred : JType) : JType → Prop where
  | same (h : inferred.isPrimitive = declared.isPrimitive) : Converts declared inferred inferred
  | boxed (hdeclared : declared.isPrimitive = false) (h : inferred.isPrimitive = true) : Converts declared inferred inferred.boxed
  | unboxed {p : Primitive} (hdeclared : declared.isPrimitive = true) (h : inferred.unboxed? = some p) : Converts declared inferred (.prim p)
  | kept (hdeclared : declared.isPrimitive = true) (h : inferred.isPrimitive = false) (hnone : inferred.unboxed? = none) :
    Converts declared inferred declared

namespace JType.Converts

variable {classes : ClassTable} {declared inferred type : JType}

/-- The slot stays of the declared kind. -/
theorem isPrimitive_eq (h : Converts declared inferred type) : type.isPrimitive = declared.isPrimitive := by
  cases h with
  | same h => exact h
  | boxed hdeclared h => cases inferred <;> simp_all [JType.isPrimitive, JType.boxed, JType.ofClass]
  | unboxed hdeclared h => exact hdeclared.symm
  | kept hdeclared h hnone => rfl

/-- What fits a slot still fits it once it is converted. -/
theorem isSubtype (h : Converts declared inferred type) (hfits : classes.isSubtype inferred.boxed declared.boxed = true) :
    classes.isSubtype type.boxed declared.boxed = true := by
  cases h with
  | same h => exact hfits
  | boxed hdeclared h => cases inferred <;> exact hfits
  | unboxed hdeclared h =>
    cases inferred with
    | named k n =>
      rw [boxed_of_unboxed? h, classes.isSubtype_untag_left]
      exact hfits
    | prim q => cases h
    | array c => cases h
    | void => cases h
  | kept hdeclared h hnone => exact classes.isSubtype_of_equiv (Setoid.refl _)

end JType.Converts

namespace FunctionalInterface

variable {classes : ClassTable} {span : Span}

/-- `void` is no subtype of a wrapper class. -/
theorem isSubtype_void_boxed {declared : JType} (hdeclared : declared.isPrimitive = true) :
    classes.isSubtype .void declared.boxed = false := by
  cases declared <;> simp_all [JType.isPrimitive, JType.boxed, JType.ofClass, ClassTable.isSubtype, JType.untag]

/-- A slot takes a type when, boxing apart, the inferred type is a subtype of the declared one. -/
theorem slotType_cases {declared inferred type : JType} (h : slotType classes declared inferred span = .ok type) :
    classes.isSubtype inferred.boxed declared.boxed = true ∧ JType.Converts declared inferred type := by
  unfold slotType at h
  cases hsub : classes.isSubtype inferred.boxed declared.boxed with
  | false =>
    rw [hsub] at h
    cases h
  | true =>
    rw [hsub] at h
    refine ⟨rfl, ?_⟩
    cases hdeclared : declared.isPrimitive with
    | false =>
      rw [hdeclared] at h
      cases inferred with
      | prim p =>
        cases h
        exact .boxed hdeclared rfl
      | _ =>
        cases h
        exact .same hdeclared.symm
    | true =>
      rw [hdeclared] at h
      cases inferred with
      | prim p =>
        cases h
        exact .same hdeclared.symm
      | array c =>
        cases h
        exact .kept hdeclared rfl rfl
      | void => cases hsub.symm.trans (isSubtype_void_boxed hdeclared)
      | named k n =>
        cases hunboxed : (JType.named k n).unboxed? with
        | none =>
          simp only [hunboxed] at h
          cases h
          exact .kept hdeclared rfl hunboxed
        | some p =>
          simp only [hunboxed] at h
          cases h
          exact .unboxed hdeclared hunboxed

/-- The type of a slot is of the declared kind and, boxing apart, a subtype of the declared type. -/
theorem slotType_eq_ok {declared inferred type : JType} (h : slotType classes declared inferred span = .ok type) :
    type.isPrimitive = declared.isPrimitive ∧ classes.isSubtype type.boxed declared.boxed = true := by
  obtain ⟨hfits, hconverts⟩ := slotType_cases h
  exact ⟨hconverts.isPrimitive_eq, hconverts.isSubtype hfits⟩

theorem slot_eq_ok {declared exact : Param} {inferred : Option JType} (h : slot classes span declared inferred = .ok exact) :
    declared.Specialises classes exact := by
  cases inferred with
  | none =>
    cases h
    exact .refl classes declared
  | some type =>
    rw [slot] at h
    cases htype : slotType classes declared.type type span with
    | error e =>
      rw [htype] at h
      cases h
    | ok t =>
      rw [htype] at h
      cases h
      obtain ⟨hkind, hsub⟩ := slotType_eq_ok htype
      exact ⟨hkind, hsub⟩

/-- Slots are laid over from the first to the last. -/
theorem slots_cons_eq_ok {p : Param} {ps exact : List Param} {t : Option JType} {ts : List (Option JType)} :
    slots classes span (p :: ps) (t :: ts) = .ok exact ↔
      ∃ first rest, slot classes span p t = .ok first ∧ slots classes span ps ts = .ok rest ∧ exact = first :: rest := by
  rw [slots]
  cases slot classes span p t with
  | error fault => exact ⟨nofun, fun ⟨_, _, hfirst, _⟩ => nomatch hfirst⟩
  | ok first =>
    cases slots classes span ps ts with
    | error fault => exact ⟨nofun, fun ⟨_, _, _, hrest, _⟩ => nomatch hrest⟩
    | ok rest =>
      refine ⟨fun h => ?_, ?_⟩
      · cases h
        exact ⟨first, rest, rfl, rfl, rfl⟩
      · rintro ⟨_, _, hfirst, hrest, rfl⟩
        cases hfirst
        cases hrest
        rfl

/-- The first slot that fails is the one that counts. -/
theorem slots_cons_eq_error {p : Param} {ps : List Param} {t : Option JType} {ts : List (Option JType)} {fault : Fault} :
    slots classes span (p :: ps) (t :: ts) = .error fault ↔ slot classes span p t = .error fault ∨
      ∃ first, slot classes span p t = .ok first ∧ slots classes span ps ts = .error fault := by
  rw [slots]
  cases slot classes span p t with
  | error e => simp [bind, Except.bind]
  | ok first =>
    cases slots classes span ps ts with
    | error e => simp [bind, Except.bind]
    | ok rest => simp [bind, Except.bind, pure, Except.pure]

/-- Laid over as many parameters, inferred types leave each specialised. -/
theorem slots_eq_ok {declared exact : List Param} {inferred : List (Option JType)} (hlength : declared.length = inferred.length)
    (h : slots classes span declared inferred = .ok exact) : List.Forall₂ (Param.Specialises classes) declared exact := by
  induction declared generalizing inferred exact with
  | nil =>
    cases inferred <;> cases h <;> exact .nil
  | cons p ps ih =>
    cases inferred with
    | nil => cases hlength
    | cons t ts =>
      obtain ⟨first, rest, hfirst, hrest, rfl⟩ := slots_cons_eq_ok.mp h
      exact .cons (slot_eq_ok hfirst) (ih (Nat.succ.inj hlength) hrest)

/-- The exact parameters of a reference specialise those of the interface method, slot by slot. -/
theorem exactParams_eq_ok {f : FunctionalInterface} {inferred : List (Option JType)} {exact : List Param}
    (h : f.exactParams classes inferred span = .ok exact) :
    List.Forall₂ (Param.Specialises classes) f.method.params exact := by
  unfold exactParams at h
  split at h
  · cases h
  · rename_i hlength
    exact slots_eq_ok (Decidable.not_not.mp hlength) h

/-- The exact parameters are as many as the inferred types. -/
theorem length_of_exactParams {f : FunctionalInterface} {inferred : List (Option JType)} {exact : List Param}
    (h : f.exactParams classes inferred span = .ok exact) : exact.length = inferred.length := by
  rw [← (exactParams_eq_ok h).length_eq]
  unfold exactParams at h
  split at h
  · cases h
  · rename_i hlength
    exact Decidable.not_not.mp hlength

/-- Laying a type over a slot fails when the type does not fit, and then names it with the declared type. -/
theorem slotType_eq_error_iff {declared inferred : JType} {fault : Fault} : slotType classes declared inferred span = .error fault ↔
    classes.isSubtype inferred.boxed declared.boxed = false ∧ fault = .inferredType inferred declared span := by
  unfold slotType
  cases classes.isSubtype inferred.boxed declared.boxed with
  | false => simp [eq_comm]
  | true => cases declared.isPrimitive <;> cases inferred <;> simp

theorem slot_eq_error_iff {declared : Param} {inferred : Option JType} {fault : Fault} :
    slot classes span declared inferred = .error fault ↔ ∃ type, inferred = some type ∧
      classes.isSubtype type.boxed declared.type.boxed = false ∧ fault = .inferredType type declared.type span := by
  cases inferred with
  | none => simp [slot]
  | some type =>
    rw [slot]
    simp only [Option.some.injEq, exists_eq_left', ← slotType_eq_error_iff]
    cases slotType classes declared.type type span <;> simp [Functor.map, Except.map]

theorem slots_eq_error {declared : List Param} {inferred : List (Option JType)} {fault : Fault}
    (h : slots classes span declared inferred = .error fault) : ∃ type expected, fault = .inferredType type expected span := by
  induction declared generalizing inferred with
  | nil => cases inferred <;> cases h
  | cons p ps ih =>
    cases inferred with
    | nil => cases h
    | cons t ts =>
      rcases slots_cons_eq_error.mp h with hfirst | ⟨first, -, hrest⟩
      · obtain ⟨type, -, -, rfl⟩ := slot_eq_error_iff.mp hfirst
        exact ⟨type, p.type, rfl⟩
      · exact ih hrest

/-- Inferred types do not fit when there are too many or too few, or when one of them is no subtype of the declared type. -/
theorem exactParams_eq_error {f : FunctionalInterface} {inferred : List (Option JType)} {fault : Fault}
    (h : f.exactParams classes inferred span = .error fault) :
    (∃ what, fault = .defect what (some span)) ∨ ∃ type expected, fault = .inferredType type expected span := by
  unfold exactParams at h
  split at h
  · cases h
    exact .inl ⟨_, rfl⟩
  · exact .inr (slots_eq_error h)

end FunctionalInterface

end Linkage
