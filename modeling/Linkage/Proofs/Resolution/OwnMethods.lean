import Linkage.Proofs.ClassTable.Built
import Linkage.Proofs.ClassTable.Resolved
import Linkage.Proofs.Resolution.Rule
import Mathlib.Data.List.Pairwise

/-!
# A type's own methods

A candidate that the target's type declares itself scores ninety at least, and one that it inherits eighty-nine at most. So an inherited
method is never preferred to an own one, and an own method with the very types of the arguments is what a reference of its shape denotes
(`Scope.resolve_own`).
-/

namespace Linkage

/-! ## The margin between own and inherited methods -/

namespace ClassTable

variable {t : ClassTable}

/-- A member of a type is declared under a name that stands for itself. -/
theorem Built.canonicalName_declaring (ht : t.Built) {typeName member : String} {m : MethodDecl} (hm : m ∈ t.members typeName member) :
    t.canonicalName m.declaring = m.declaring := by
  obtain ⟨owner, howner, hname⟩ := ht.underlying?_declaring hm
  rw [canonicalName_of_underlying? howner, hname]

/-- Members of a type with the same parameter types are one. -/
theorem eq_of_sameTypes {typeName member : String} {m n : MethodDecl} (hm : m ∈ t.members typeName member)
    (hn : n ∈ t.members typeName member) (h : sameTypes m.params n.params = true) : m = n := by
  have : Std.Symm fun m n : MethodDecl => sameTypes m.params n.params = false := by
    refine ⟨fun m n hmn => ?_⟩
    rw [Bool.eq_false_iff] at hmn ⊢
    exact fun hnm => hmn (sameTypes_symm hnm)
  by_contra hne
  have hdiffer := (pairwise_firstOfEach _ (t.declaredMembers typeName member)).forall hm hn hne
  rw [h] at hdiffer
  cases hdiffer

end ClassTable

namespace Candidate

variable {classes : ClassTable} {target : String} {isType : Bool} {c : Candidate}

/-- A candidate of the target itself has ninety points, and nine more when its shape agrees. -/
theorem score_own (h : classes.canonicalName c.method.declaring = target) :
    c.score classes target isType = 90 + if isType = c.method.isStatic then 9 else 0 := by
  obtain ⟨rest, hrest⟩ := List.head?_eq_some_iff.mp (classes.head?_lineage c.method.declaring)
  rw [score_eq, hrest, h, List.idxOf_cons_self]

/-- A candidate of another type has eighty-nine points at most. -/
theorem score_inherited (h : classes.canonicalName c.method.declaring ≠ target) : c.score classes target isType ≤ 89 := by
  obtain ⟨rest, hrest⟩ := List.head?_eq_some_iff.mp (classes.head?_lineage c.method.declaring)
  rw [score_eq, hrest, List.idxOf_cons_ne rest h]
  split <;> omega

/-- No candidate has more than ninety-nine points. -/
theorem score_le (classes : ClassTable) (target : String) (isType : Bool) (c : Candidate) : c.score classes target isType ≤ 99 := by
  rw [score_eq]
  split <;> omega

/-- Where one of several candidates is exact, the preferred one is. -/
theorem Preferred.isExact {P : Candidate → Prop} {d : Candidate} (hd : Preferred classes P d) (hc : P c) (hexact : c.Exact) : d.Exact := by
  cases hd with
  | exact first => exact first.holds.2
  | mostSpecific hno _ => exact absurd hexact (hno c hc)
  | earliest hno _ _ => exact absurd hexact (hno c hc)

end Candidate

namespace Scope

variable {s : Scope} {r : Reference} {exact : List Param} {typeName : String} {c d : Candidate} {decl : ClassDecl}

theorem IsCandidate.mem_members (h : s.IsCandidate r exact typeName c) : c.method ∈ s.classes.members typeName r.member :=
  s.policy.mem_of_mem_select _ _ _ _ (List.mem_of_getElem? h.visible)

theorem Leads.score_le (hd : s.Leads r exact typeName d) (hc : s.IsCandidate r exact typeName c) :
    c.score s.classes (s.classes.canonicalName typeName) r.target.isType ≤
      d.score s.classes (s.classes.canonicalName typeName) r.target.isType :=
  hd.highest c hc _ _ (Candidate.scores_iff.mpr rfl) (Candidate.scores_iff.mpr rfl)

section Built

variable (hbuilt : s.classes.Built) (hdecl : s.classes.underlying? typeName = some decl)

include hbuilt hdecl

theorem IsCandidate.score_own (hc : s.IsCandidate r exact typeName c) (hown : c.method.declaring = decl.name) :
    c.score s.classes (s.classes.canonicalName typeName) r.target.isType = 90 + if r.target.isType = c.method.isStatic then 9 else 0 := by
  refine Candidate.score_own ?_
  rw [hbuilt.canonicalName_declaring hc.mem_members, hown, ClassTable.canonicalName_of_underlying? hdecl]

theorem IsCandidate.score_inherited (hc : s.IsCandidate r exact typeName c) (hother : c.method.declaring ≠ decl.name) :
    c.score s.classes (s.classes.canonicalName typeName) r.target.isType ≤ 89 := by
  refine Candidate.score_inherited ?_
  rwa [hbuilt.canonicalName_declaring hc.mem_members, ClassTable.canonicalName_of_underlying? hdecl]

/-- What leads is declared by the target itself, if any candidate is. -/
theorem Leads.declaring_eq (hd : s.Leads r exact typeName d) (hc : s.IsCandidate r exact typeName c)
    (hown : c.method.declaring = decl.name) : d.method.declaring = decl.name := by
  by_contra hother
  have hle := hd.score_le hc
  rw [hc.score_own hbuilt hdecl hown] at hle
  have hlow := hd.candidate.score_inherited hbuilt hdecl hother
  omega

/-- The shape of what leads agrees, if that of any candidate of the target itself does. -/
theorem Leads.agrees (hd : s.Leads r exact typeName d) (hc : s.IsCandidate r exact typeName c) (hown : c.method.declaring = decl.name)
    (hshape : r.target.isType = c.method.isStatic) : r.target.isType = d.method.isStatic := by
  by_contra hother
  have hle := hd.score_le hc
  have hdown := hd.declaring_eq hbuilt hdecl hc hown
  rw [hc.score_own hbuilt hdecl hown, hd.candidate.score_own hbuilt hdecl hdown, if_pos hshape, if_neg hother] at hle
  omega

/-- No candidate outranks one of the target itself whose shape agrees. -/
theorem IsCandidate.leads (hc : s.IsCandidate r exact typeName c) (hown : c.method.declaring = decl.name)
    (hshape : r.target.isType = c.method.isStatic) : s.Leads r exact typeName c := by
  refine ⟨hc, fun d _ m n hm hn => ?_⟩
  rw [Candidate.scores_iff.mp hm, Candidate.scores_iff.mp hn, hc.score_own hbuilt hdecl hown, if_pos hshape]
  exact d.score_le _ _ _

end Built

/-- A candidate whose shape agrees takes no receiver, so it is matched against all exact parameters. -/
theorem IsCandidate.arguments_eq (hc : s.IsCandidate r exact typeName c) (hshape : r.target.isType = c.method.isStatic) :
    c.takesReceiver = false ∧ c.arguments = exact := by
  have htakes : c.takesReceiver = false := by rw [hc.takesReceiver, hshape, Bool.and_not_self]
  refine ⟨htakes, ?_⟩
  have harguments := hc.arguments
  rw [htakes, if_neg (by simp)] at harguments
  exact harguments.symm

/-- A visible method whose shape agrees and whose parameters are the exact ones is an exact candidate. -/
theorem isCandidate_of_sameTypes {m : MethodDecl} (hm : m ∈ s.visibleMembers typeName r.member) (hshape : r.target.isType = m.isStatic)
    (hexact : sameTypes exact m.params = true) : ∃ c, s.IsCandidate r exact typeName c ∧ c.Exact ∧ c.method = m := by
  obtain ⟨order, horder⟩ := List.mem_iff_getElem?.mp hm
  refine ⟨⟨m, order, false, exact⟩, ⟨horder, ?_, ?_, .of_sameTypes s.classes hexact⟩, sameTypes_iff_forall₂.mp hexact, rfl⟩
  · simp [hshape]
  · rfl

/-- If a candidate is declared by the type in which the members of the target are searched, then so is the method that a reference
denotes. A method that this type declares itself, of the shape that the reference asks for and with the exact parameters, is what the
reference denotes. -/
theorem resolve_own (hbuilt : s.classes.Built) (hname : lookupName? r.target.staticType = some typeName)
    (hdecl : s.classes.underlying? typeName = some decl) :
    ((∃ c, s.IsCandidate r exact typeName c ∧ c.method.declaring = decl.name) →
      ∀ m, s.resolve r exact = .ok m → m.declaring = decl.name) ∧
    ∀ m ∈ s.visibleMembers typeName r.member, m.declaring = decl.name → m.isStatic = r.target.isType →
      sameTypes m.params exact = true → s.resolve r exact = .ok m := by
  have hdenotes := s.denotes_resolve r exact
  constructor
  · rintro ⟨c, hc, hown⟩ m hm
    rw [hm] at hdenotes
    cases hdenotes with
    | method hname' hpreferred _ =>
      obtain rfl := Option.some.inj (hname.symm.trans hname')
      exact hpreferred.holds.declaring_eq hbuilt hdecl hc hown
  · intro m hm hown hshape hexact
    obtain ⟨c, hc, hcexact, rfl⟩ := isCandidate_of_sameTypes hm hshape.symm (sameTypes_symm hexact)
    -- whatever leads has the shape of `c`, so it is matched against the same arguments, and what is preferred has their types
    have hunbound : ∀ d, s.Leads r exact typeName d → d.takesReceiver = false ∧ d.arguments = exact :=
      fun d hd => hd.candidate.arguments_eq (hd.agrees hbuilt hdecl hc hown hshape.symm)
    have hleads := hc.leads hbuilt hdecl hown hshape.symm
    have hpreferred : ∀ d : Candidate, d.Preferred s.classes (s.Leads r exact typeName) → d.method = c.method := by
      intro d hd
      have hdexact : sameTypes d.arguments d.method.params = true := sameTypes_iff_forall₂.mpr (hd.isExact hleads hcexact)
      rw [(hunbound d hd.holds).2] at hdexact
      exact ClassTable.eq_of_sameTypes hd.holds.candidate.mem_members hc.mem_members
        (sameTypes_trans (sameTypes_symm hdexact) (sameTypes_symm hexact))
    generalize s.resolve r exact = result at hdenotes
    cases hdenotes with
    | noMembers htype =>
      rw [lookupName?_eq_none_iff.mpr htype] at hname
      cases hname
    | unresolved hname' hnone =>
      obtain rfl := Option.some.inj (hname.symm.trans hname')
      exact absurd hc (hnone c)
    | receiverType hname' hd htakes _ _ =>
      obtain rfl := Option.some.inj (hname.symm.trans hname')
      rw [(hunbound _ hd.holds).1] at htakes
      cases htakes
    | method hname' hd _ =>
      obtain rfl := Option.some.inj (hname.symm.trans hname')
      rw [hpreferred _ hd]

/-- A public static method `f` with one parameter. -/
def sampleOf (type : JType) : MethodDecl :=
  { name := "f", params := [.ofType "x" type], result := .void, access := .accPublic ||| .accStatic }

/-- `p/Derived` declares `f(Object)` and inherits `f(String)` of `p/Base`. -/
def sampleDerived : ClassTable :=
  .registerAll .empty [(ClassDecl.ofClass "p/Base").addMethods [sampleOf .string],
    { ClassDecl.ofClass "p/Derived" with superclass := some "p/Base" }.addMethods [sampleOf .object]]

/-- `Derived::f`. -/
def sampleOfDerived : Reference :=
  ⟨.type (.ofClass "p/Derived") .unknown, "f", none, none, .unknown⟩

/-- `Derived::f` denotes the method of `p/Derived`: for a string, which both methods accept, and for an object, which is what it takes. -/
theorem resolve_own_sampleDerived :
    sampleDerived.Built ∧
      (∃ c, IsCandidate ⟨sampleDerived, .language, "p/Main"⟩ sampleOfDerived [.ofType "p0" .string] "p/Derived" c ∧
        c.method.declaring = "p/Derived") ∧
      (∀ m, resolve ⟨sampleDerived, .language, "p/Main"⟩ sampleOfDerived [.ofType "p0" .string] = .ok m → m.declaring = "p/Derived") ∧
      resolve ⟨sampleDerived, .language, "p/Main"⟩ sampleOfDerived [.ofType "p0" .object] =
        .ok { sampleOf .object with declaring := "p/Derived" } := by
  have hbuilt : sampleDerived.Built :=
    (ClassTable.Built.empty.register rfl [sampleOf .string]).register rfl [sampleOf .object]
  obtain ⟨decl, hdecl⟩ : ∃ decl, sampleDerived.underlying? "p/Derived" = some decl := Option.isSome_iff_exists.mp (by decide +kernel)
  have hdeclName : decl.name = "p/Derived" := by
    have hcanonical : sampleDerived.canonicalName "p/Derived" = "p/Derived" := by decide +kernel
    rwa [ClassTable.canonicalName_of_underlying? hdecl] at hcanonical
  have hown := fun exact => @resolve_own ⟨sampleDerived, .language, "p/Main"⟩ sampleOfDerived exact "p/Derived" decl hbuilt rfl hdecl
  rw [hdeclName] at hown
  have hcandidate : IsCandidate ⟨sampleDerived, .language, "p/Main"⟩ sampleOfDerived [.ofType "p0" .string] "p/Derived"
      ⟨{ sampleOf .object with declaring := "p/Derived" }, 0, false, [.ofType "p0" .string]⟩ :=
    mem_candidates_iff.mp (by decide +kernel)
  exact ⟨hbuilt, ⟨_, hcandidate, rfl⟩, (hown _).1 ⟨_, hcandidate, rfl⟩,
    (hown _).2 _ (by decide +kernel) rfl (by decide) (by decide)⟩

end Scope

end Linkage
