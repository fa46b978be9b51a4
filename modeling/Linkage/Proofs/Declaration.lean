import Linkage.Declaration
import Linkage.Proofs.Descriptor
import Mathlib.Data.List.Forall2

/-!
# Methods that join a declaration

A method is refused when the declaration has one of its name and descriptor already. As long as no name holds the semicolon that ends it,
the descriptor says which parameter types and which result a method has, up to the kinds of named types (`methodDescriptor_eq_iff`). So of
methods that are offered one after another just those are refused whose name, parameter types and result came before
(`addMethod?_eq_none_iff_repeats`).
-/

namespace Linkage

/-! ## Signatures -/

/-- Parameter lists have the same types when, slot by slot, the types agree up to kinds. -/
theorem sameTypes_iff_forall₂ {ps qs : List Param} :
    sameTypes ps qs = true ↔ List.Forall₂ (fun p q => p.type ≈ q.type) ps qs := by
  induction ps generalizing qs with
  | nil => cases qs <;> simp [sameTypes]
  | cons p ps ih =>
    cases qs with
    | nil => simp [sameTypes]
    | cons q qs => simp only [sameTypes, Bool.and_eq_true, decide_eq_true_eq, ih, List.forall₂_cons]

namespace MethodDecl

/-- Methods of one name and, slot by slot, the same parameter types. -/
def SameSignature (m n : MethodDecl) : Prop :=
  m.name = n.name ∧ List.Forall₂ (fun p q => p.type ≈ q.type) m.params n.params

/-- The check of name and parameters finds the methods of the same signature. -/
theorem sameSignature_iff {m n : MethodDecl} :
    (m.name = n.name && sameTypes m.params n.params) = true ↔ m.SameSignature n := by
  rw [Bool.and_eq_true, decide_eq_true_eq, sameTypes_iff_forall₂]
  rfl

/-- A method has the signature that it has. -/
theorem SameSignature.refl (m : MethodDecl) : m.SameSignature m :=
  ⟨rfl, sameTypes_iff_forall₂.mp (sameTypes_refl m.params)⟩

/-- Having the same signature goes both ways. -/
theorem SameSignature.symm {m n : MethodDecl} (h : m.SameSignature n) : n.SameSignature m :=
  ⟨h.1.symm, sameTypes_iff_forall₂.mp (sameTypes_symm (sameTypes_iff_forall₂.mpr h.2))⟩

/-- Having the same signature goes on from one method to the next. -/
theorem SameSignature.trans {m n o : MethodDecl} (h : m.SameSignature n) (h' : n.SameSignature o) : m.SameSignature o :=
  ⟨h.1.trans h'.1,
    sameTypes_iff_forall₂.mp (sameTypes_trans (sameTypes_iff_forall₂.mpr h.2) (sameTypes_iff_forall₂.mpr h'.2))⟩

end MethodDecl

/-! ## What a descriptor says -/

/-- Types are the same slot by slot when they are equal without kinds. -/
theorem JType.forall₂_equiv_iff {ps qs : List JType} : List.Forall₂ (· ≈ ·) ps qs ↔ ps.map JType.untag = qs.map JType.untag := by
  rw [← List.forall₂_eq_eq_eq, List.forall₂_map_left_iff, List.forall₂_map_right_iff]
  rfl

/-- Descriptors are equal exactly when the parameter types agree slot by slot and the results agree. -/
theorem methodDescriptor_eq_iff {ps qs : List JType} {r s : JType} (hps : ∀ t ∈ ps, t.Plain) (hqs : ∀ t ∈ qs, t.Plain) (hr : r.Plain)
    (hs : s.Plain) : methodDescriptor ps r = methodDescriptor qs s ↔ List.Forall₂ (· ≈ ·) ps qs ∧ r ≈ s := by
  rw [JType.forall₂_equiv_iff, JType.equiv_def]
  constructor
  · intro h
    have hread := congrArg JType.readMethod? h
    rw [JType.readMethod?_methodDescriptor hps hr, JType.readMethod?_methodDescriptor hqs hs] at hread
    exact Prod.mk.inj (Option.some.inj hread)
  · rintro ⟨htypes, hresult⟩
    have hdescriptors := congrArg (List.map JType.descriptor) htypes
    simp only [List.map_map, Function.comp_def, JType.descriptor_untag] at hdescriptors
    rw [methodDescriptor, methodDescriptor, hdescriptors, JType.descriptor_congr hresult]

namespace MethodDecl

variable {m n o : MethodDecl}

/-- No name in the types of the method holds a semicolon. -/
def Plain (m : MethodDecl) : Prop :=
  (∀ type ∈ m.paramTypes, type.Plain) ∧ m.result.Plain

instance (m : MethodDecl) : Decidable m.Plain :=
  inferInstanceAs (Decidable (_ ∧ _))

/-- Methods of one signature and one result. -/
def Repeats (m n : MethodDecl) : Prop :=
  m.SameSignature n ∧ m.result ≈ n.result

/-- Repeating goes on from one method to the next. -/
theorem Repeats.trans (h : m.Repeats n) (h' : n.Repeats o) : m.Repeats o :=
  ⟨h.1.trans h'.1, Setoid.trans h.2 h'.2⟩

/-- Plain methods repeat each other when they have the same name and descriptor. -/
theorem repeats_iff (hm : m.Plain) (hn : n.Plain) : m.Repeats n ↔ m.name = n.name ∧ m.descriptor = n.descriptor := by
  rw [descriptor, descriptor, methodDescriptor_eq_iff hm.1 hn.1 hm.2 hn.2, paramTypes, paramTypes, List.forall₂_map_left_iff,
    List.forall₂_map_right_iff, Repeats, SameSignature, and_assoc]

end MethodDecl

/-! ## Methods that are offered -/

namespace ClassDecl

variable {c : ClassDecl} {m n : MethodDecl} {offered : List MethodDecl}

/-- A method is refused when the declaration has one of its name and descriptor, and joins the others at the end when it has none. -/
theorem addMethod?_cases (c : ClassDecl) (m : MethodDecl) : c.declares m.name m.descriptor = true ∧ c.addMethod? m = none ∨
    c.declares m.name m.descriptor = false ∧
      c.addMethod? m = some { c with methods := c.methods ++ [{ m with declaring := c.name }] } := by
  rw [addMethod?]
  cases c.declares m.name m.descriptor with
  | true => exact .inl ⟨rfl, rfl⟩
  | false => exact .inr ⟨rfl, rfl⟩

/-- No name in the types of the methods holds a semicolon. -/
def Plain (c : ClassDecl) : Prop :=
  ∀ m ∈ c.methods, m.Plain

/-- The declaration has a method that a method repeats. -/
def Has (c : ClassDecl) (m : MethodDecl) : Prop :=
  ∃ n ∈ c.methods, n.Repeats m

/-- A declaration refuses the methods that it has. -/
theorem addMethod?_eq_none_iff (hc : c.Plain) (hm : m.Plain) : c.addMethod? m = none ↔ c.Has m := by
  have hdeclares : c.declares m.name m.descriptor = true ↔ c.Has m := by
    rw [declares, List.any_eq_true]
    refine exists_congr fun n => and_congr_right fun hn => ?_
    rw [MethodDecl.repeats_iff (hc n hn) hm, Bool.and_eq_true, decide_eq_true_eq, decide_eq_true_eq]
  rw [← hdeclares]
  rcases c.addMethod?_cases m with ⟨hold, hadd⟩ | ⟨hnew, hadd⟩
  · simp [hold, hadd]
  · simp [hnew, hadd]

/-- A method that is offered is had afterwards, whether it joined or was had before, and nothing else is new. -/
theorem has_addMethod? (hc : c.Plain) (hm : m.Plain) :
    ((c.addMethod? m).getD c).Plain ∧ ∀ n, ((c.addMethod? m).getD c).Has n ↔ c.Has n ∨ m.Repeats n := by
  rcases c.addMethod?_cases m with ⟨-, hadd⟩ | ⟨-, hadd⟩
  · obtain ⟨k, hk, hkm⟩ := (addMethod?_eq_none_iff hc hm).mp hadd
    rw [hadd, Option.getD_none]
    exact ⟨hc, fun n => ⟨.inl, fun h => h.elim id fun hmn => ⟨k, hk, hkm.trans hmn⟩⟩⟩
  · rw [hadd, Option.getD_some]
    refine ⟨fun k hk => ?_, fun n => ?_⟩
    · rcases List.mem_append.mp hk with hk | hk
      · exact hc k hk
      · rw [List.mem_singleton.mp hk]
        exact hm
    · simp only [Has, List.mem_append, List.mem_singleton, or_and_right, exists_or, exists_eq_left]
      rfl

/-- After methods were offered one by one the declaration has what it had and all of these. -/
theorem has_addMethods (hc : c.Plain) (hoffered : ∀ m ∈ offered, m.Plain) :
    (c.addMethods offered).Plain ∧ ∀ n, (c.addMethods offered).Has n ↔ c.Has n ∨ ∃ m ∈ offered, m.Repeats n := by
  induction offered generalizing c with
  | nil => exact ⟨hc, fun n => by simp [addMethods]⟩
  | cons m ms ih =>
    obtain ⟨hplain, hhas⟩ := has_addMethod? hc (hoffered m List.mem_cons_self)
    obtain ⟨hplain', hhas'⟩ := ih hplain fun k hk => hoffered k (List.mem_cons_of_mem m hk)
    refine ⟨hplain', fun n => ?_⟩
    rw [addMethods, List.foldl_cons, ← addMethods, hhas', hhas, or_assoc, List.exists_mem_cons_iff]

/-- Where no name holds a semicolon, descriptors are equal exactly when the parameter types agree slot by slot and the results agree. So of
the methods that are offered one by one to a declaration without methods just those are refused that it has already, which are those that
repeat one that was offered before. -/
theorem addMethod?_eq_none_iff_repeats :
    (∀ (ps qs : List JType) (r s : JType), (∀ t ∈ ps, t.Plain) → (∀ t ∈ qs, t.Plain) → r.Plain → s.Plain →
      (methodDescriptor ps r = methodDescriptor qs s ↔ List.Forall₂ (· ≈ ·) ps qs ∧ r ≈ s)) ∧
    ∀ (c : ClassDecl) (offered : List MethodDecl) (m : MethodDecl), c.methods = [] → (∀ n ∈ offered, n.Plain) → m.Plain →
      ((c.addMethods offered).addMethod? m = none ↔ (c.addMethods offered).Has m) ∧
      ((c.addMethods offered).Has m ↔ ∃ n ∈ offered, n.Repeats m) := by
  refine ⟨fun ps qs r s hps hqs hr hs => methodDescriptor_eq_iff hps hqs hr hs, fun c offered m hc hoffered hm => ?_⟩
  have hplain : c.Plain := by
    rw [Plain, hc]
    exact nofun
  obtain ⟨hplain', hhas⟩ := has_addMethods hplain hoffered
  refine ⟨addMethod?_eq_none_iff hplain' hm, ?_⟩
  rw [hhas, Has, hc]
  simp

/-- A method with one parameter. -/
def sampleTake (type result : JType) : MethodDecl :=
  { name := "take", params := [.ofType "x" type], result := result }

/-- An array of a class and one of an interface of the same name are one parameter type, so the second of these methods is refused. One with
another result joins; and two names are not taken for one that holds what stands between them. -/
theorem addMethod?_eq_none_iff_repeats_sampleTake :
    ((ClassDecl.ofClass "p/Taker").addMethods [sampleTake (.array (.ofClass "p/Api")) .void]).addMethod?
      (sampleTake (.array (.ofInterface "p/Api")) .void) = none ∧
    ((ClassDecl.ofClass "p/Taker").addMethods [sampleTake (.array (.ofClass "p/Api")) .void]).addMethod?
      (sampleTake (.array (.ofClass "p/Api")) .int) ≠ none ∧
    methodDescriptor [.ofClass "a", .ofClass "b"] .void ≠ methodDescriptor [.ofClass "aLb"] .void := by
  obtain ⟨hdescriptor, hadd⟩ := addMethod?_eq_none_iff_repeats
  obtain ⟨hnone, hhas⟩ := hadd (.ofClass "p/Taker") [sampleTake (.array (.ofClass "p/Api")) .void]
    (sampleTake (.array (.ofInterface "p/Api")) .void) rfl (by decide) (by decide)
  obtain ⟨hnone', hhas'⟩ := hadd (.ofClass "p/Taker") [sampleTake (.array (.ofClass "p/Api")) .void]
    (sampleTake (.array (.ofClass "p/Api")) .int) rfl (by decide) (by decide)
  refine ⟨?_, ?_, ?_⟩
  · exact hnone.mpr (hhas.mpr ⟨_, List.mem_cons_self, ⟨rfl, .cons rfl .nil⟩, rfl⟩)
  · rw [ne_eq, hnone', hhas']
    rintro ⟨n, hn, -, hresult⟩
    rw [List.mem_singleton.mp hn] at hresult
    cases hresult
  · rw [ne_eq, hdescriptor [.ofClass "a", .ofClass "b"] [.ofClass "aLb"] .void .void (by decide) (by decide) trivial trivial]
    rintro ⟨htypes, -⟩
    cases htypes.length_eq

end ClassDecl

end Linkage
