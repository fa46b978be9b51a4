import Linkage.ClassTable.Platform
import Linkage.Proofs.FunctionalInterface.Parameters

/-!
# Inferred types laid over a method

Inferred types are laid over the parameters of an interface method slot by slot. There have to be as many, and each has to fit, which says
that it is a subtype of the declared type, boxing apart; the first that does not is the one reported. What comes of it is as many parameters,
each overlaid on the declared one (`Overlaid`), and their types are a fixed point: laid over the method in turn they come out as they are
(`exactParams_overlaid`).
-/

namespace Linkage

namespace FunctionalInterface

variable {classes : ClassTable} {span : Span}

/-- Whether a slot, a declared parameter with the type inferred for it, fits: the inferred type, if there is one, is a subtype of the
declared one, boxing apart. -/
def fits (classes : ClassTable) (slot : Param × Option JType) : Bool :=
  slot.2.all fun type => classes.isSubtype type.boxed slot.1.type.boxed

/-- The first slot that does not fit. -/
def firstMisfit? (classes : ClassTable) (slots : List (Param × Option JType)) : Option (Param × Option JType) :=
  slots.find? (!fits classes ·)

/-- Nothing is found when all slots fit. -/
theorem firstMisfit?_eq_none {slots : List (Param × Option JType)} :
    firstMisfit? classes slots = none ↔ ∀ slot ∈ slots, fits classes slot = true := by
  simp only [firstMisfit?, List.find?_eq_none, Bool.not_eq_true', Bool.not_eq_false]

/-- The slot that is found has an inferred type, which does not fit. -/
theorem of_firstMisfit?_eq_some {slots : List (Param × Option JType)} {slot : Param × Option JType}
    (h : firstMisfit? classes slots = some slot) : slot ∈ slots ∧ fits classes slot = false ∧ ∃ type, slot.2 = some type := by
  have hfits : fits classes slot = false := by simpa using List.find?_some h
  refine ⟨List.mem_of_find?_eq_some h, hfits, Option.ne_none_iff_exists'.mp fun hgap => ?_⟩
  rw [fits, hgap] at hfits
  cases hfits

/-- A parameter that comes of a slot: the declared one itself where nothing was inferred, else the one of that name that is declared with
the inferred type, converted to the kind of the slot. -/
structure Overlaid (classes : ClassTable) (slot : Param × Option JType) (exact : Param) : Prop where
  name : exact.name = slot.1.name
  gap : slot.2 = none → exact = slot.1
  converts : ∀ type ∈ slot.2, exact.origin = exact.type ∧ JType.Converts slot.1.type type exact.type
  specialises : slot.1.Specialises classes exact

/-! ## One slot -/

/-- A slot that fits is overlaid with what was inferred for it. -/
theorem overlaid_of_slot {declared exact : Param} {inferred : Option JType} (h : slot classes span declared inferred = .ok exact) :
    Overlaid classes (declared, inferred) exact := by
  have hspecialises := slot_eq_ok h
  cases inferred with
  | none =>
    cases h
    exact ⟨rfl, fun _ => rfl, fun _ htype => absurd htype (Option.not_mem_none _), hspecialises⟩
  | some type =>
    rw [slot] at h
    cases htype : slotType classes declared.type type span with
    | error fault =>
      rw [htype] at h
      cases h
    | ok t =>
      rw [htype] at h
      cases h
      refine ⟨rfl, fun hgap => absurd hgap (Option.some_ne_none _), fun type' htype' => ?_, hspecialises⟩
      obtain rfl := Option.some.inj htype'
      exact ⟨rfl, (slotType_cases htype).2⟩

/-- A slot fails when it does not fit, and the fault names the inferred and the declared type. -/
theorem slot_eq_error_iff_not_fits {declared : Param} {inferred : Option JType} {fault : Fault} :
    slot classes span declared inferred = .error fault ↔
      fits classes (declared, inferred) = false ∧ ∃ type, inferred = some type ∧ fault = .inferredType type declared.type span := by
  rw [slot_eq_error_iff]
  cases inferred <;> simp [fits]

/-- A slot comes through just when it fits. -/
theorem exists_slot_eq_ok_iff {declared : Param} {inferred : Option JType} :
    (∃ exact, slot classes span declared inferred = .ok exact) ↔ fits classes (declared, inferred) = true := by
  cases hslot : slot classes span declared inferred with
  | error fault => simp [(slot_eq_error_iff_not_fits.mp hslot).1]
  | ok exact =>
    refine ⟨fun _ => ?_, fun _ => ⟨exact, rfl⟩⟩
    by_contra hfits
    rw [Bool.not_eq_true] at hfits
    cases inferred with
    | none => cases hfits
    | some type => cases hslot.symm.trans (slot_eq_error_iff_not_fits.mpr ⟨hfits, type, rfl, rfl⟩)

/-- A type of the declared kind that fits is taken as it is. -/
theorem slot_of_specialises {declared exact : Param} (h : declared.Specialises classes exact) :
    slot classes span declared (some exact.type) = .ok (declared.retyped exact.type) := by
  have htype : slotType classes declared.type exact.type span = .ok exact.type := by
    unfold slotType
    rw [h.subtype, ← h.kind]
    cases exact.type <;> rfl
  rw [slot, htype]
  rfl

/-! ## All slots -/

/-- Slots fail when one of them does not fit, and the fault names the types of the first one. -/
theorem slots_eq_error_iff {declared : List Param} {inferred : List (Option JType)} {fault : Fault} :
    slots classes span declared inferred = .error fault ↔
      ∃ p type, firstMisfit? classes (declared.zip inferred) = some (p, some type) ∧ fault = .inferredType type p.type span := by
  induction declared generalizing inferred with
  | nil => simp [slots, firstMisfit?]
  | cons p ps ih =>
    cases inferred with
    | nil => simp [slots, firstMisfit?]
    | cons t ts =>
      rw [slots_cons_eq_error, slot_eq_error_iff_not_fits, ih, List.zip_cons_cons, firstMisfit?, firstMisfit?, List.find?_cons]
      have hok : (∃ exact, slot classes span p t = .ok exact) ↔ fits classes (p, t) = true := exists_slot_eq_ok_iff
      cases hfits : fits classes (p, t) with
      | true =>
        obtain ⟨first, hfirst⟩ := hok.mpr hfits
        simp [hfirst]
      | false =>
        rw [hfits] at hok
        simp_all

/-- Slots that come through are overlaid one by one. -/
theorem overlaid_of_slots {declared exact : List Param} {inferred : List (Option JType)}
    (h : slots classes span declared inferred = .ok exact) :
    List.Forall₂ (Overlaid classes) (declared.zip inferred) exact := by
  induction declared generalizing inferred exact with
  | nil =>
    cases h
    exact .nil
  | cons p ps ih =>
    cases inferred with
    | nil =>
      cases h
      exact .nil
    | cons t ts =>
      obtain ⟨first, rest, hfirst, hrest, rfl⟩ := slots_cons_eq_ok.mp h
      exact .cons (overlaid_of_slot hfirst) (ih hrest)

/-- Types of the declared kinds that fit are taken as they are. -/
theorem slots_of_specialises {declared exact : List Param} (h : List.Forall₂ (Param.Specialises classes) declared exact) :
    ∃ again, slots classes span declared (exact.map fun p => some p.type) = .ok again ∧ again.map (·.type) = exact.map (·.type) := by
  induction h with
  | nil => exact ⟨[], rfl, rfl⟩
  | @cons p q ps qs hfirst _ ih =>
    obtain ⟨rest, hrest, htypes⟩ := ih
    refine ⟨p.retyped q.type :: rest, slots_cons_eq_ok.mpr ⟨_, rest, slot_of_specialises hfirst, hrest, rfl⟩, ?_⟩
    rw [List.map_cons, List.map_cons, htypes]
    rfl

/-! ## The whole method -/

variable {f : FunctionalInterface} {inferred : List (Option JType)} {exact : List Param} {fault : Fault}

/-- Where the numbers agree, the parameters are those of the slots. -/
theorem exactParams_of_length (h : f.method.params.length = inferred.length) :
    f.exactParams classes inferred span = slots classes span f.method.params inferred := by
  rw [exactParams, if_neg (not_not.mpr h)]

/-- Laying types over a method fails when there are too many or too few of them, and else when one does not fit its slot. -/
theorem exactParams_eq_error_iff : f.exactParams classes inferred span = .error fault ↔
    f.method.params.length ≠ inferred.length ∧
        fault = .defect (.inferredCount inferred.length f.type f.method.name f.method.params.length) (some span) ∨
      f.method.params.length = inferred.length ∧ ∃ p type,
        firstMisfit? classes (f.method.params.zip inferred) = some (p, some type) ∧ fault = .inferredType type p.type span := by
  by_cases hlength : f.method.params.length = inferred.length
  · rw [exactParams_of_length hlength, slots_eq_error_iff]
    simp [hlength]
  · rw [exactParams, if_pos hlength]
    simp [hlength, eq_comm]

/-- The exact parameters are overlaid on the declared ones one by one. -/
theorem overlaid_of_exactParams (h : f.exactParams classes inferred span = .ok exact) :
    List.Forall₂ (Overlaid classes) (f.method.params.zip inferred) exact := by
  have hlength := (exactParams_eq_ok h).length_eq.trans (length_of_exactParams h)
  rw [exactParams_of_length hlength] at h
  exact overlaid_of_slots h

/-- The exact types are a fixed point. -/
theorem exactParams_again (h : f.exactParams classes inferred span = .ok exact) : ∃ again,
    f.exactParams classes (exact.map fun p => some p.type) span = .ok again ∧ again.map (·.type) = exact.map (·.type) := by
  have hspecialises := exactParams_eq_ok h
  rw [exactParams_of_length (by rw [List.length_map, hspecialises.length_eq])]
  exact slots_of_specialises hspecialises

/-- Laying types over a method succeeds when there are as many as parameters and each fits. -/
theorem exists_exactParams_eq_ok_iff : (∃ exact, f.exactParams classes inferred span = .ok exact) ↔
    f.method.params.length = inferred.length ∧ ∀ slot ∈ f.method.params.zip inferred, fits classes slot = true := by
  rw [← firstMisfit?_eq_none]
  constructor
  · rintro ⟨exact, h⟩
    have hlength := (exactParams_eq_ok h).length_eq.trans (length_of_exactParams h)
    refine ⟨hlength, Option.eq_none_iff_forall_ne_some.mpr fun slot hslot => ?_⟩
    obtain ⟨-, -, type, htype⟩ := of_firstMisfit?_eq_some hslot
    have herror : f.exactParams classes inferred span = .error (.inferredType type slot.1.type span) :=
      exactParams_eq_error_iff.mpr (.inr ⟨hlength, slot.1, type, by rw [hslot, ← htype], rfl⟩)
    cases h.symm.trans herror
  · rintro ⟨hlength, hnone⟩
    cases hexact : f.exactParams classes inferred span with
    | ok exact => exact ⟨exact, rfl⟩
    | error fault =>
      rcases exactParams_eq_error_iff.mp hexact with ⟨hdiffer, -⟩ | ⟨-, p, type, hsome, -⟩
      · exact absurd hlength hdiffer
      · cases hnone.symm.trans hsome

/-- Inferred types are laid over a method slot by slot, exactly when there are as many as parameters and each fits its slot. A wrong number
of them is a defect; else the first one that does not fit is reported with the declared type. The exact parameters are as many as the
declared ones, each overlaid on the declared one, and their types, laid over the method again, come out as they are. -/
theorem exactParams_overlaid (classes : ClassTable) (f : FunctionalInterface) (inferred : List (Option JType)) (span : Span) :
    (∀ fault, f.exactParams classes inferred span = .error fault ↔
      f.method.params.length ≠ inferred.length ∧
          fault = .defect (.inferredCount inferred.length f.type f.method.name f.method.params.length) (some span) ∨
        f.method.params.length = inferred.length ∧ ∃ p type,
          firstMisfit? classes (f.method.params.zip inferred) = some (p, some type) ∧ fault = .inferredType type p.type span) ∧
    ((∃ exact, f.exactParams classes inferred span = .ok exact) ↔
      f.method.params.length = inferred.length ∧ ∀ slot ∈ f.method.params.zip inferred, fits classes slot = true) ∧
    ∀ exact, f.exactParams classes inferred span = .ok exact →
      exact.length = f.method.params.length ∧ List.Forall₂ (Overlaid classes) (f.method.params.zip inferred) exact ∧
      ∃ again, f.exactParams classes (exact.map fun p => some p.type) span = .ok again ∧ again.map (·.type) = exact.map (·.type) :=
  ⟨fun _ => exactParams_eq_error_iff, exists_exactParams_eq_ok_iff, fun _ h =>
    ⟨(exactParams_eq_ok h).length_eq.symm, overlaid_of_exactParams h, exactParams_again h⟩⟩

/-- An interface whose method takes a primitive, a number and any object. -/
def sampleMixer : FunctionalInterface where
  type := .ofInterface "p/Mixer"
  method :=
    { name := "mix", params := [.ofType "count" .int, .ofType "key" (.ofClass WellKnown.number), .ofType "rest" .object], result := .void }

/-- A wrapper is unboxed for the primitive slot, a primitive boxed for the number, and the slot without an inferred type stays; the number
does not fit where a text is inferred for it. -/
theorem exactParams_overlaid_sampleMixer :
    (∃ exact, sampleMixer.exactParams .platform [some (.ofClass "java/lang/Integer"), some .int, none] .unknown = .ok exact ∧
      exact.map (·.type) = [.int, .ofClass "java/lang/Integer", .object] ∧
      List.Forall₂ (Overlaid .platform) (sampleMixer.method.params.zip [some (.ofClass "java/lang/Integer"), some .int, none]) exact) ∧
    sampleMixer.exactParams .platform [none, some .string, some .string] .unknown =
      .error (.inferredType .string (.ofClass WellKnown.number) .unknown) := by
  obtain ⟨-, hok, hoverlaid⟩ :=
    exactParams_overlaid .platform sampleMixer [some (.ofClass "java/lang/Integer"), some .int, none] .unknown
  obtain ⟨herror, -, -⟩ := exactParams_overlaid .platform sampleMixer [none, some .string, some .string] .unknown
  obtain ⟨exact, hexact⟩ := hok.mpr ⟨rfl, by decide +kernel⟩
  refine ⟨⟨exact, hexact, ?_, (hoverlaid exact hexact).2.1⟩, (herror _).mpr (.inr ⟨rfl, ?_⟩)⟩
  · have htypes : (sampleMixer.exactParams .platform [some (.ofClass "java/lang/Integer"), some .int, none] .unknown).toOption.map
        (List.map (·.type)) = some [.int, .ofClass "java/lang/Integer", .object] := by decide +kernel
    rw [hexact] at htypes
    exact Option.some.inj htypes
  · exact ⟨.ofType "key" (.ofClass WellKnown.number), .string, by decide +kernel, rfl⟩

end FunctionalInterface

end Linkage
