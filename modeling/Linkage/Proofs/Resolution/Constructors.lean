import Linkage.Proofs.Kinds
import Linkage.Proofs.Resolution.OwnMethods

/-!
# The order of constructors

A creation calls one of the constructors that apply to its arguments (`Scope.Applies`), and fails where none does. Constructors that were
added one by one differ in their parameter types. So where one has the types of the arguments, or where one alone may be passed on to every
other, the order in which they stand does not matter (`Scope.constructorFor_perm`).
-/

namespace Linkage

/-! ## Methods that were added one by one -/

/-- Methods whose parameters have the same types, and whose results are the same, have one descriptor. -/
theorem MethodDecl.descriptor_congr {m n : MethodDecl} (hparams : sameTypes m.params n.params = true) (hresult : m.result = n.result) :
    m.descriptor = n.descriptor := by
  have htypes : m.paramTypes.map JType.untag = n.paramTypes.map JType.untag := by
    rw [paramTypes, paramTypes, List.map_map, List.map_map]
    exact sameTypes_iff.mp hparams
  rw [descriptor, descriptor, ← methodDescriptor_untag, htypes, methodDescriptor_untag, hresult]

namespace ClassDecl

variable {c : ClassDecl} {name : String} {methods : List MethodDecl}

/-- Overloads that differ in their descriptors do so when methods are added. -/
theorem pairwise_overloads_addMethods (hc : (c.overloads name).Pairwise fun m n => m.descriptor ≠ n.descriptor)
    (methods : List MethodDecl) : ((c.addMethods methods).overloads name).Pairwise fun m n => m.descriptor ≠ n.descriptor := by
  induction methods generalizing c with
  | nil => exact hc
  | cons m ms ih =>
    rw [addMethods, List.foldl_cons, ← addMethods]
    rcases c.addMethod?_cases m with ⟨-, hadd⟩ | ⟨hnew, hadd⟩
    · rw [hadd]
      exact ih hc
    · rw [hadd]
      refine ih ?_
      rw [Option.getD_some, overloads, List.filter_append, ← overloads]
      refine List.pairwise_append.mpr ⟨hc, (List.pairwise_singleton _ _).filter _, fun n hn k hk hnk => Bool.eq_false_iff.mp hnew ?_⟩
      obtain ⟨hk, hkname⟩ := List.mem_filter.mp hk
      obtain ⟨hn, hnname⟩ := List.mem_filter.mp hn
      obtain rfl := List.mem_singleton.mp hk
      have hname : n.name = m.name := (of_decide_eq_true hnname).trans (of_decide_eq_true hkname).symm
      have hdescriptor : n.descriptor = m.descriptor := hnk
      exact List.any_eq_true.mpr ⟨n, hn, by simp only [hname, hdescriptor, decide_true, Bool.and_self]⟩

/-- Overloads that were added one by one and have no result are one when their parameters have the same types. -/
theorem eq_of_sameTypes_addMethods (hnone : c.overloads name = [])
    (hvoid : ∀ m ∈ (c.addMethods methods).overloads name, m.result = .void) {m n : MethodDecl}
    (hm : m ∈ (c.addMethods methods).overloads name) (hn : n ∈ (c.addMethods methods).overloads name)
    (h : sameTypes m.params n.params = true) : m = n := by
  have hapart : ((c.addMethods methods).overloads name).Pairwise fun m n => m.descriptor ≠ n.descriptor :=
    pairwise_overloads_addMethods (by rw [hnone]; exact List.Pairwise.nil) methods
  have : Std.Symm fun m n : MethodDecl => m.descriptor ≠ n.descriptor := ⟨fun _ _ => Ne.symm⟩
  by_contra hne
  exact hapart.forall hm hn hne (MethodDecl.descriptor_congr h ((hvoid m hm).trans (hvoid n hn).symm))

end ClassDecl

namespace Scope

variable {s : Scope} {decl : ClassDecl} {className : String} {arguments : List Param} {span : Span} {m n : MethodDecl}

/-! ## Constructors that apply -/

/-- The code may use a constructor of a declaration, and the constructor accepts the arguments. -/
structure Applies (s : Scope) (decl : ClassDecl) (arguments : List Param) (m : MethodDecl) : Prop where
  visible : m ∈ s.policy.select s.classes s.accessing (decl.overloads WellKnown.constructor)
  accepted : s.classes.Passes arguments m.params

/-- A constructor applies, and its parameters may be passed to every other one that does. -/
structure AppliesMost (s : Scope) (decl : ClassDecl) (arguments : List Param) (m : MethodDecl) : Prop where
  applies : s.Applies decl arguments m
  passes : ∀ n, s.Applies decl arguments n → n ≠ m → s.classes.Passes m.params n.params

theorem mem_constructorCandidates_iff {c : Candidate} : c ∈ s.constructorCandidates decl arguments ↔
    (s.policy.select s.classes s.accessing (decl.overloads WellKnown.constructor))[c.order]? = some c.method ∧
      c.takesReceiver = false ∧ c.arguments = arguments ∧ s.classes.Passes arguments c.method.params := by
  simp only [constructorCandidates, List.mem_filterMap, Prod.exists, List.mem_zipIdx_iff_getElem?, Option.ite_none_right_eq_some,
    ClassTable.accepts_iff_passes]
  constructor
  · rintro ⟨m, order, hvisible, haccepted, hc⟩
    cases hc
    exact ⟨hvisible, rfl, rfl, haccepted⟩
  · rintro ⟨hvisible, htakes, harguments, haccepted⟩
    obtain ⟨method, order, takesReceiver, given⟩ := c
    obtain rfl : takesReceiver = false := htakes
    obtain rfl : given = arguments := harguments
    exact ⟨method, order, hvisible, haccepted, rfl⟩

/-- The constructors that apply are those of the candidates. -/
theorem applies_iff_exists_candidate : s.Applies decl arguments m ↔ ∃ c ∈ s.constructorCandidates decl arguments, c.method = m := by
  constructor
  · rintro ⟨hvisible, haccepted⟩
    obtain ⟨order, horder⟩ := List.mem_iff_getElem?.mp hvisible
    exact ⟨⟨m, order, false, arguments⟩, mem_constructorCandidates_iff.mpr ⟨horder, rfl, rfl, haccepted⟩, rfl⟩
  · rintro ⟨c, hc, rfl⟩
    obtain ⟨hvisible, -, -, haccepted⟩ := mem_constructorCandidates_iff.mp hc
    exact ⟨List.mem_of_getElem? hvisible, haccepted⟩

theorem inOrder_constructorCandidates : Candidate.InOrder (s.constructorCandidates decl arguments) := by
  rw [constructorCandidates, Candidate.InOrder, List.pairwise_filterMap]
  refine (pairwise_zipIdx _).imp ?_
  rintro ⟨m, i⟩ ⟨n, j⟩ hlt c hc d hd
  obtain ⟨-, hc⟩ := Option.ite_none_right_eq_some.mp hc
  obtain ⟨-, hd⟩ := Option.ite_none_right_eq_some.mp hd
  cases hc
  cases hd
  exact hlt

/-! ## The constructor that is called -/

/-- A candidate fits all when its constructor applies most. -/
theorem fitsAll_iff_appliesMost {c : Candidate} (hc : c ∈ s.constructorCandidates decl arguments) :
    c.FitsAll s.classes (· ∈ s.constructorCandidates decl arguments) ↔ s.AppliesMost decl arguments c.method := by
  constructor
  · intro h
    refine ⟨applies_iff_exists_candidate.mpr ⟨c, hc, rfl⟩, fun n hn _ => ?_⟩
    obtain ⟨d, hd, rfl⟩ := applies_iff_exists_candidate.mp hn
    exact h d hd
  · intro h d hd
    by_cases heq : d.method = c.method
    · rw [heq]
      exact ClassTable.Passes.refl s.classes c.method.params
    · exact h.passes d.method (applies_iff_exists_candidate.mpr ⟨d, hd, rfl⟩) heq

/-- The one constructor that a creation may call, whatever the order: the one that has the types of the arguments, or, where none that
applies has, the one that applies most. -/
inductive IsBest (s : Scope) (decl : ClassDecl) (arguments : List Param) (m : MethodDecl) : Prop where
  | exact (applies : s.Applies decl arguments m)
    (only : ∀ n, s.Applies decl arguments n → (sameTypes arguments n.params = true ↔ n = m))
  | most (applies : s.Applies decl arguments m) (none : ∀ n, s.Applies decl arguments n → sameTypes arguments n.params = false)
    (only : ∀ n, s.AppliesMost decl arguments n ↔ n = m)

theorem IsBest.applies (h : s.IsBest decl arguments m) : s.Applies decl arguments m := by
  cases h with
  | exact applies _ => exact applies
  | most applies _ _ => exact applies

section Underlying

variable (hdecl : s.classes.underlying? className = some decl)

include hdecl

/-- A creation fails just where no constructor applies. -/
theorem constructorFor_eq_error_iff {fault : Fault} : s.constructorFor className arguments span = .error fault ↔
    (∀ m, ¬ s.Applies decl arguments m) ∧
      fault = .unresolved WellKnown.creation (arguments.map (·.type)) (.ofClass className) span := by
  rw [constructorFor, hdecl, Option.bind_some]
  cases hpick : Candidate.pick? s.classes (s.constructorCandidates decl arguments) with
  | none =>
    have hnone : ∀ m, ¬ s.Applies decl arguments m := by
      intro m hm
      obtain ⟨c, hc, -⟩ := applies_iff_exists_candidate.mp hm
      exact Candidate.pick?_ne_none (List.ne_nil_of_mem hc) hpick
    constructor
    · rintro ⟨⟩
      exact ⟨hnone, rfl⟩
    · rintro ⟨-, rfl⟩
      rfl
  | some c =>
    have happlies := applies_iff_exists_candidate.mpr ⟨c, Candidate.mem_of_pick? hpick, rfl⟩
    exact ⟨nofun, fun h => absurd happlies (h.1 c.method)⟩

/-- What a creation calls applies. -/
theorem applies_of_constructorFor (h : s.constructorFor className arguments span = .ok m) : s.Applies decl arguments m := by
  rw [constructorFor, hdecl, Option.bind_some] at h
  split at h
  · rename_i c hpick
    cases h
    exact applies_iff_exists_candidate.mpr ⟨c, Candidate.mem_of_pick? hpick, rfl⟩
  · cases h

/-- A creation calls the best constructor. -/
theorem constructorFor_of_isBest (hm : s.IsBest decl arguments m) : s.constructorFor className arguments span = .ok m := by
  rw [constructorFor, hdecl, Option.bind_some]
  obtain ⟨d, hd, rfl⟩ := applies_iff_exists_candidate.mp hm.applies
  have hsome : Candidate.pick? s.classes (s.constructorCandidates decl arguments) ≠ none :=
    Candidate.pick?_ne_none (List.ne_nil_of_mem hd)
  obtain ⟨c, hpick⟩ := Option.ne_none_iff_exists'.mp hsome
  rw [hpick]
  have hpreferred := Candidate.preferred_of_pick? inOrder_constructorCandidates hpick
  have hc := hpreferred.holds
  have happlies := applies_iff_exists_candidate.mpr ⟨c, hc, rfl⟩
  have hexact : ∀ e ∈ s.constructorCandidates decl arguments, e.Exact ↔ sameTypes arguments e.method.params = true := by
    intro e he
    obtain ⟨-, -, harguments, -⟩ := mem_constructorCandidates_iff.mp he
    rw [← Candidate.isExact_iff, Candidate.isExact, harguments]
  refine congrArg Except.ok ?_
  cases hm with
  | exact _ only =>
    exact (only c.method happlies).mp ((hexact c hc).mp (hpreferred.isExact hd ((hexact d hd).mpr ((only d.method ‹_›).mpr rfl))))
  | most _ none only =>
    have hfits := (fitsAll_iff_appliesMost hd).mpr ((only d.method).mpr rfl)
    cases hpreferred with
    | exact first =>
      have hsame := (hexact c hc).mp first.holds.2
      rw [none c.method happlies] at hsame
      cases hsame
    | mostSpecific _ first => exact (only c.method).mp ((fitsAll_iff_appliesMost hc).mp first.holds.2)
    | earliest _ hnone _ => exact absurd hfits (hnone d hd)

end Underlying

/-! ## Other orders -/

section Order

variable {t u : ClassTable} {c d : ClassDecl} (h : t.SameHierarchy u)
  (hperm : (d.overloads WellKnown.constructor).Perm (c.overloads WellKnown.constructor)) (accessing : String)

include h hperm

/-- In tables with the same hierarchy the same constructors of a declaration apply, in whatever order they stand. -/
theorem applies_congr : Applies ⟨u, .language, accessing⟩ d arguments m ↔ Applies ⟨t, .language, accessing⟩ c arguments m := by
  have hvisible : m ∈ AccessPolicy.language.select u accessing (d.overloads WellKnown.constructor) ↔
      m ∈ AccessPolicy.language.select t accessing (c.overloads WellKnown.constructor) := by
    rw [h.select_language]
    exact (hperm.filter _).mem_iff
  have haccepted : u.Passes arguments m.params ↔ t.Passes arguments m.params := by
    rw [← ClassTable.accepts_iff_passes, ← ClassTable.accepts_iff_passes, h.accepts]
  exact ⟨fun hm => ⟨hvisible.mp hm.visible, haccepted.mp hm.accepted⟩, fun hm => ⟨hvisible.mpr hm.visible, haccepted.mpr hm.accepted⟩⟩

theorem appliesMost_congr : AppliesMost ⟨u, .language, accessing⟩ d arguments m ↔ AppliesMost ⟨t, .language, accessing⟩ c arguments m := by
  have hpasses : ∀ n : MethodDecl, u.Passes m.params n.params ↔ t.Passes m.params n.params := by
    intro n
    rw [← ClassTable.accepts_iff_passes, ← ClassTable.accepts_iff_passes, h.accepts]
  constructor
  · intro hm
    exact ⟨(applies_congr h hperm accessing).mp hm.applies,
      fun n hn hne => (hpasses n).mp (hm.passes n ((applies_congr h hperm accessing).mpr hn) hne)⟩
  · intro hm
    exact ⟨(applies_congr h hperm accessing).mpr hm.applies,
      fun n hn hne => (hpasses n).mpr (hm.passes n ((applies_congr h hperm accessing).mp hn) hne)⟩

/-- The best constructor stays the best. -/
theorem IsBest.congr (hm : IsBest ⟨t, .language, accessing⟩ c arguments m) : IsBest ⟨u, .language, accessing⟩ d arguments m := by
  cases hm with
  | exact applies only =>
    exact .exact ((applies_congr h hperm accessing).mpr applies) fun n hn => only n ((applies_congr h hperm accessing).mp hn)
  | most applies none only =>
    exact .most ((applies_congr h hperm accessing).mpr applies) (fun n hn => none n ((applies_congr h hperm accessing).mp hn))
      fun n => (appliesMost_congr h hperm accessing).trans (only n)

end Order

/-- Where constructors differ in their parameter types, the one with the types of the arguments is the best, and where there is none, the
one that applies most, if there is just one. -/
theorem exists_isBest
    (hdiffer : ∀ m n, s.Applies decl arguments m → s.Applies decl arguments n → sameTypes m.params n.params = true → m = n)
    (hunique : (∃ m, s.Applies decl arguments m ∧ sameTypes arguments m.params = true) ∨ ∃! m, s.AppliesMost decl arguments m) :
    ∃ m, s.IsBest decl arguments m := by
  by_cases hexact : ∃ m, s.Applies decl arguments m ∧ sameTypes arguments m.params = true
  · obtain ⟨m, hm, hsame⟩ := hexact
    refine ⟨m, .exact hm fun n hn => ⟨fun hsame' => ?_, fun heq => heq ▸ hsame⟩⟩
    exact hdiffer n m hn hm (sameTypes_trans (sameTypes_symm hsame') hsame)
  · obtain ⟨m, hm, honly⟩ := hunique.resolve_left hexact
    refine ⟨m, .most hm.applies (fun n hn => ?_) fun n => ⟨honly n, fun heq => heq ▸ hm⟩⟩
    exact Bool.eq_false_iff.mpr fun hsame => hexact ⟨n, hn, hsame⟩

/-- Where constructors without result were added to a class one by one, and stand in another order in a declaration in its place, a creation
fails with one order just when it fails with the other. Where a visible one has the types of the arguments, or just one that applies may
be passed on to every other one, both call the same constructor, which applies. -/
theorem constructorFor_perm {t : ClassTable} {base d : ClassDecl} {methods : List MethodDecl}
    (hunderlying : t.underlying? className = some (base.addMethods methods)) (hnone : base.overloads WellKnown.constructor = [])
    (hvoid : ∀ m ∈ (base.addMethods methods).overloads WellKnown.constructor, m.result = .void)
    (hrest : d.withoutMethods = (base.addMethods methods).withoutMethods)
    (hperm : (d.overloads WellKnown.constructor).Perm ((base.addMethods methods).overloads WellKnown.constructor)) (accessing : String)
    (exact : List Param) (span : Span) :
    let before : Scope := ⟨t, .language, accessing⟩
    let after : Scope := ⟨t.register d, .language, accessing⟩
    let unresolved : Fault := .unresolved WellKnown.creation (exact.map (·.type)) (.ofClass className) span
    (before.constructorFor className exact span = .error unresolved ↔ after.constructorFor className exact span = .error unresolved) ∧
      ((∃ m ∈ (base.addMethods methods).overloads WellKnown.constructor,
          isAccessible t accessing m = true ∧ sameTypes exact m.params = true) ∨
        (∃! m, before.AppliesMost (base.addMethods methods) exact m) →
        ∃ m, before.Applies (base.addMethods methods) exact m ∧ before.constructorFor className exact span = .ok m ∧
          after.constructorFor className exact span = .ok m) := by
  intro before after unresolved
  obtain ⟨hsame, hunderlying'⟩ := ClassTable.sameHierarchy_register hunderlying hrest
  have happlies : ∀ m, after.Applies d exact m ↔ before.Applies (base.addMethods methods) exact m :=
    fun m => applies_congr hsame hperm accessing
  refine ⟨?_, fun hunique => ?_⟩
  · rw [constructorFor_eq_error_iff hunderlying, constructorFor_eq_error_iff hunderlying']
    simp only [happlies]
  · have hdiffer : ∀ m n, before.Applies (base.addMethods methods) exact m → before.Applies (base.addMethods methods) exact n →
        sameTypes m.params n.params = true → m = n := fun m n hm hn =>
      ClassDecl.eq_of_sameTypes_addMethods hnone hvoid (List.mem_filter.mp hm.visible).1 (List.mem_filter.mp hn.visible).1
    obtain ⟨m, hm⟩ := exists_isBest hdiffer (hunique.imp_left fun ⟨m, hm, hvisible, hexact⟩ =>
      ⟨m, ⟨List.mem_filter.mpr ⟨hm, hvisible⟩, .of_sameTypes t hexact⟩, hexact⟩)
    exact ⟨m, hm.applies, constructorFor_of_isBest hunderlying hm, constructorFor_of_isBest hunderlying' (hm.congr hsame hperm accessing)⟩

/-- A constructor of `p/Meter` that takes one value. -/
def sampleConstructor (type : JType) : MethodDecl :=
  { MethodDecl.constructor [.ofType "value" type] with declaring := "p/Meter" }

/-- The class `p/Meter` with constructors that take one value each. -/
def sampleMeter (types : List JType) : ClassDecl :=
  (ClassDecl.ofClass "p/Meter").addMethods (types.map sampleConstructor)

/-- Constructors for objects, for numbers and for strings. -/
def sampleMeters : ClassTable :=
  ClassTable.platform.register (sampleMeter [.object, .ofClass WellKnown.number, .string])

/-- Of the constructors that take an `Integer` the one for numbers applies most, and a creation calls it whatever the order. -/
theorem constructorFor_perm_sampleMeters :
    (∃! m, AppliesMost ⟨sampleMeters, .language, "p/Main"⟩ (sampleMeter [.object, .ofClass WellKnown.number, .string])
      [.ofType "p0" (.ofClass Primitive.int.wrapper)] m) ∧
    ∃ m, constructorFor ⟨sampleMeters, .language, "p/Main"⟩ "p/Meter" [.ofType "p0" (.ofClass Primitive.int.wrapper)] .unknown = .ok m ∧
      constructorFor ⟨sampleMeters.register (sampleMeter [.string, .ofClass WellKnown.number, .object]), .language, "p/Main"⟩ "p/Meter"
        [.ofType "p0" (.ofClass Primitive.int.wrapper)] .unknown = .ok m := by
  have hunderlying : sampleMeters.underlying? "p/Meter" = some (sampleMeter [.object, .ofClass WellKnown.number, .string]) := by
    decide +kernel
  have hvisible : AccessPolicy.language.select sampleMeters "p/Main"
      ((sampleMeter [.object, .ofClass WellKnown.number, .string]).overloads WellKnown.constructor) =
        [sampleConstructor .object, sampleConstructor (.ofClass WellKnown.number), sampleConstructor .string] := by
    decide +kernel
  have hperm : ((sampleMeter [.string, .ofClass WellKnown.number, .object]).overloads WellKnown.constructor).Perm
      ((sampleMeter [.object, .ofClass WellKnown.number, .string]).overloads WellKnown.constructor) := by
    decide +kernel
  -- an `Integer` is a number and an object but no string, and an object may not be passed for a number
  have happlies : ∀ m, Applies ⟨sampleMeters, .language, "p/Main"⟩ (sampleMeter [.object, .ofClass WellKnown.number, .string])
      [.ofType "p0" (.ofClass Primitive.int.wrapper)] m ↔
        m = sampleConstructor .object ∨ m = sampleConstructor (.ofClass WellKnown.number) := by
    intro m
    constructor
    · rintro ⟨hm, haccepted⟩
      rw [hvisible] at hm
      rcases List.mem_cons.mp hm with rfl | hm
      · exact .inl rfl
      · rcases List.mem_cons.mp hm with rfl | hm
        · exact .inr rfl
        · obtain rfl := List.mem_singleton.mp hm
          rw [← ClassTable.accepts_iff_passes] at haccepted
          revert haccepted
          decide +kernel
    · rintro (rfl | rfl)
      · exact ⟨by rw [hvisible]; decide, ClassTable.accepts_iff_passes.mp (by decide +kernel)⟩
      · exact ⟨by rw [hvisible]; decide, ClassTable.accepts_iff_passes.mp (by decide +kernel)⟩
  have hmost : ∃! m, AppliesMost ⟨sampleMeters, .language, "p/Main"⟩
      (sampleMeter [.object, .ofClass WellKnown.number, .string]) [.ofType "p0" (.ofClass Primitive.int.wrapper)] m := by
    refine ⟨sampleConstructor (.ofClass WellKnown.number), ⟨(happlies _).mpr (.inr rfl), fun n hn hne => ?_⟩, fun m hm => ?_⟩
    · rcases (happlies n).mp hn with rfl | rfl
      · exact ClassTable.accepts_iff_passes.mp (by decide +kernel)
      · exact absurd rfl hne
    · rcases (happlies m).mp hm.applies with rfl | rfl
      · have hpasses := ClassTable.accepts_iff_passes.mpr (hm.passes _ ((happlies _).mpr (.inr rfl)) (by decide))
        revert hpasses
        decide +kernel
      · rfl
  obtain ⟨-, hcalls⟩ := constructorFor_perm hunderlying (by decide) (by decide +kernel) (by decide +kernel) hperm "p/Main" _ .unknown
  obtain ⟨m, -, hbefore, hafter⟩ := hcalls (.inr hmost)
  exact ⟨hmost, m, hbefore, hafter⟩

end Scope

end Linkage
