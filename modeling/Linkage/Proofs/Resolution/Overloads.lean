import Linkage.Proofs.ClassTable.Members
import Linkage.Proofs.Resolution.Agreement
import Linkage.Proofs.Resolution.Rule

/-!
# Overloads that do not apply

A method that joins the members of a type moves those behind it one place. What a reference denotes depends on the order of its candidates
only, not on their places, so a method that may not be used, or that does not accept the arguments, changes no answer
(`Scope.resolve_addMethod?`).
-/

namespace Linkage

/-! ## Places -/

namespace Candidate

/-- The candidate without its place. -/
def placeless (c : Candidate) : Candidate :=
  { c with order := 0 }

variable {cs ds : List Candidate}

/-- Picks one of several candidates in order: the first whose parameters are the arguments, else the first whose parameters fit every other
one, else the first. -/
def pickFirst? (classes : ClassTable) (tied : List Candidate) : Option Candidate :=
  (tied.find? isExact <|> tied.find? fun c => c.isMostSpecific classes tied) <|> tied.head?

theorem pick?_eq_pickFirst? (classes : ClassTable) (h : InOrder cs) : pick? classes cs = pickFirst? classes cs := by
  have hearliest : earliest? cs = cs.head? := by
    cases cs with
    | nil => rfl
    | cons c cs => exact earliest?_cons h
  rw [pick?, pickFirst?, hearliest]

/-- What is picked first does not depend on places. -/
theorem pickFirst?_placeless (classes : ClassTable) (cs : List Candidate) :
    pickFirst? classes (cs.map placeless) = (pickFirst? classes cs).map placeless := by
  have hspecific : (fun c => isMostSpecific classes c (cs.map placeless)) ∘ placeless = fun c => isMostSpecific classes c cs := by
    funext c
    simp only [Function.comp_apply, isMostSpecific, List.all_map]
    rfl
  have hexact : isExact ∘ placeless = isExact := rfl
  unfold pickFirst?
  rw [List.find?_map, List.find?_map, hexact, hspecific, List.head?_map]
  cases cs.find? isExact with
  | some c => rfl
  | none => cases cs.find? fun c => isMostSpecific classes c cs <;> rfl

theorem best_placeless (classes : ClassTable) (target : String) (isType : Bool) (cs : List Candidate) :
    best (score classes target isType) (cs.map placeless) = (best (score classes target isType) cs).map placeless := by
  have hscore : score classes target isType ∘ placeless = score classes target isType := rfl
  simp only [best, topScore, List.map_map, hscore, List.filter_map]
  rfl

end Candidate

namespace Scope

variable (s : Scope)

/-- The choice among candidates in order does not depend on places. -/
theorem choose?_placeless {cs : List Candidate} (hcs : Candidate.InOrder cs) (target : String) (isType : Bool) :
    (s.choose? target isType cs).map Candidate.placeless =
      Candidate.pickFirst? s.classes (Candidate.best (Candidate.score s.classes target isType) (cs.map Candidate.placeless)) := by
  have hbest : Candidate.InOrder (Candidate.best (Candidate.score s.classes target isType) cs) := hcs.filter _
  rw [choose?_eq_pick?, Candidate.pick?_eq_pickFirst? s.classes hbest, Candidate.best_placeless, Candidate.pickFirst?_placeless]

/-- A method makes a candidate when there are arguments to match it against and it accepts them. -/
theorem candidate?_eq_bind (isType : Bool) (exact : List Param) (m : MethodDecl) (order : Nat) :
    s.candidate? isType exact m order = (arguments? isType exact m).bind fun arguments =>
      if s.classes.accepts arguments m.params then some ⟨m, order, isType && !m.isStatic, arguments⟩ else none := by
  unfold candidate?
  cases arguments? isType exact m with
  | none => rfl
  | some arguments =>
    simp only [Option.bind_eq_bind, Option.bind_some]
    cases s.classes.accepts arguments m.params <;> rfl

/-- The candidates, places apart, are made of the visible methods one by one. -/
theorem candidates_placeless (isType : Bool) (exact : List Param) (typeName member : String) :
    (s.candidates isType exact typeName member).map Candidate.placeless =
      (s.visibleMembers typeName member).filterMap fun m => s.candidate? isType exact m 0 := by
  have hcandidate : ∀ m order, (s.candidate? isType exact m order).map Candidate.placeless = s.candidate? isType exact m 0 := by
    intro m order
    rw [candidate?_eq_bind, candidate?_eq_bind]
    cases arguments? isType exact m with
    | none => rfl
    | some arguments =>
      simp only [Option.bind_some]
      split <;> rfl
  rw [candidates, List.map_filterMap]
  simp only [hcandidate]
  conv_rhs => rw [← List.zipIdx_map_fst 0 (s.visibleMembers typeName member), List.filterMap_map]
  rfl

/-- What a reference denotes depends on its candidates in order, and not on their places. -/
theorem resolve_congr {t u : ClassTable} (h : t.SameHierarchy u) (policy : AccessPolicy) (accessing : String) {r : Reference}
    {exact : List Param}
    (hcandidates : ∀ typeName, lookupName? r.target.staticType = some typeName →
      (candidates ⟨u, policy, accessing⟩ r.target.isType exact typeName r.member).map Candidate.placeless =
        (candidates ⟨t, policy, accessing⟩ r.target.isType exact typeName r.member).map Candidate.placeless) :
    resolve ⟨u, policy, accessing⟩ r exact = resolve ⟨t, policy, accessing⟩ r exact := by
  have hchosen : ∀ (s : Scope) typeName, (s.choose? (t.canonicalName typeName) r.target.isType
      (s.candidates r.target.isType exact typeName r.member)).map Candidate.placeless =
        Candidate.pickFirst? s.classes (Candidate.best (Candidate.score s.classes (t.canonicalName typeName) r.target.isType)
          ((s.candidates r.target.isType exact typeName r.member).map Candidate.placeless)) :=
    fun s typeName => s.choose?_placeless inOrder_candidates (t.canonicalName typeName) r.target.isType
  have hscore : Candidate.score u = Candidate.score t := by
    funext target isType c
    simp only [Candidate.score, h.lineage]
  have hpick : ∀ tied, Candidate.pickFirst? u tied = Candidate.pickFirst? t tied := by
    intro tied
    simp only [Candidate.pickFirst?, Candidate.isMostSpecific, h.accepts]
  unfold resolve
  dsimp only
  cases hname : lookupName? r.target.staticType with
  | none => rfl
  | some typeName =>
    have hu := hchosen ⟨u, policy, accessing⟩ typeName
    have ht := hchosen ⟨t, policy, accessing⟩ typeName
    rw [hcandidates typeName hname, hscore, hpick, ← ht] at hu
    dsimp only
    rw [← h.canonicalName]
    revert hu
    generalize choose? ⟨u, policy, accessing⟩ _ _ _ = a
    generalize choose? ⟨t, policy, accessing⟩ _ _ _ = b
    intro hu
    cases a with
    | none =>
      cases b with
      | none => rfl
      | some d => cases hu
    | some c =>
      cases b with
      | none => cases hu
      | some d =>
        -- places apart one candidate is chosen, and neither its method nor its receiver knows its place
        have hcd : c.placeless = d.placeless := Option.some.inj hu
        have hmethod : c.method = d.method := by injection hcd
        have htakes : c.takesReceiver = d.takesReceiver := by injection hcd
        dsimp only
        rw [hmethod, ← h.requireReceiver]
        simp only [requireReceiver, htakes]

/-! ## A method that does not apply -/

/-- Among the methods of a name that a type has and that may be used, a method with new parameter types changes itself at most. -/
theorem filter_visibleMembers_addMethod? {t u : ClassTable} {className : String} {m : MethodDecl}
    (hadd : t.addMethod? className m = some u) (accessing : String) {typeName member : String}
    (hnew : ∀ n ∈ t.members typeName member, sameTypes n.params m.params = false) :
    (visibleMembers ⟨u, .language, accessing⟩ typeName member).filter (· ≠ { m with declaring := className }) =
      visibleMembers ⟨t, .language, accessing⟩ typeName member := by
  have h : t.SameHierarchy u := ClassTable.looksLike_addMethod? hadd fun _ => rfl
  simp only [visibleMembers, AccessPolicy.language]
  rw [List.filter_comm, ClassTable.filter_members_addMethod? hadd hnew, h.isAccessible]

/-- A method with new parameter types that joins the known types changes nothing of what a reference denotes when the code may not use it, or
when it does not accept the arguments it would be matched against, or when there is no argument to be its receiver. -/
theorem resolve_addMethod? {t u : ClassTable} {className : String} {m : MethodDecl} (hadd : t.addMethod? className m = some u)
    (accessing : String) (r : Reference) (exact : List Param)
    (hskip : isAccessible t accessing { m with declaring := className } = false ∨
      ∀ arguments, arguments? r.target.isType exact m = some arguments → t.accepts arguments m.params = false)
    (hnew : ∀ typeName, lookupName? r.target.staticType = some typeName →
      ∀ n ∈ t.members typeName r.member, sameTypes n.params m.params = false) :
    resolve ⟨u, .language, accessing⟩ r exact = resolve ⟨t, .language, accessing⟩ r exact := by
  have h : t.SameHierarchy u := ClassTable.looksLike_addMethod? hadd fun _ => rfl
  refine resolve_congr h .language accessing fun typeName hname => ?_
  have hcandidate : candidate? ⟨u, .language, accessing⟩ r.target.isType exact =
      candidate? ⟨t, .language, accessing⟩ r.target.isType exact := by
    funext n order
    simp only [candidate?, h.accepts]
  rw [candidates_placeless, candidates_placeless, hcandidate, ← filter_visibleMembers_addMethod? hadd accessing (hnew typeName hname),
    List.filterMap_filter]
  -- the new method is not among the visible ones, or makes no candidate
  refine List.filterMap_congr fun n hn => ?_
  by_cases hnm : n = { m with declaring := className }
  · rw [if_neg (by simpa using hnm), hnm]
    rcases hskip with hhidden | hinapplicable
    · have hvisible := (List.mem_filter.mp hn).2
      rw [← h.isAccessible, hnm, hhidden] at hvisible
      cases hvisible
    · rw [candidate?_eq_bind, Option.bind_eq_none_iff]
      intro arguments harguments
      exact if_neg (by simp [hinapplicable arguments harguments])
  · rw [if_pos (by simpa using hnm)]

/-- `p/Derived` inherits the static method `f(Object)` of `p/Base`. -/
def sampleInherited : ClassTable :=
  .registerAll .empty [ClassTable.objectClass,
    (ClassDecl.ofClass "p/Base").addMethods
      [{ name := "f", params := [.ofType "o" .object], result := .void, access := .accPublic ||| .accStatic }],
    { ClassDecl.ofClass "p/Derived" with superclass := some "p/Base" }]

/-- A static method `f(String)`. -/
def sampleOverload : MethodDecl :=
  { name := "f", params := [.ofType "s" .string], result := .void, access := .accPublic ||| .accStatic }

/-- `Derived::f`. -/
def sampleNaming : Reference :=
  ⟨.type (.ofClass "p/Derived") .unknown, "f", none, none, .unknown⟩

/-- Where an object is given, `f(String)` does not apply, so that `p/Derived` may declare it. -/
theorem resolve_addMethod?_sampleOverload : ∃ u, sampleInherited.addMethod? "p/Derived" sampleOverload = some u ∧
    (∀ arguments, arguments? true [.ofType "p0" .object] sampleOverload = some arguments →
      sampleInherited.accepts arguments sampleOverload.params = false) ∧
    (∀ n ∈ sampleInherited.members "p/Derived" "f", sameTypes n.params sampleOverload.params = false) ∧
    resolve ⟨u, .language, "p/Main"⟩ sampleNaming [.ofType "p0" .object] =
      resolve ⟨sampleInherited, .language, "p/Main"⟩ sampleNaming [.ofType "p0" .object] ∧
    (resolve ⟨u, .language, "p/Main"⟩ sampleNaming [.ofType "p0" .object]).toOption.map MethodDecl.render =
      some "p/Base.f(Ljava/lang/Object;)V" := by
  obtain ⟨u, hadd⟩ : ∃ u, sampleInherited.addMethod? "p/Derived" sampleOverload = some u :=
    Option.isSome_iff_exists.mp (by decide +kernel)
  have hskip : ∀ arguments, arguments? true [.ofType "p0" .object] sampleOverload = some arguments →
      sampleInherited.accepts arguments sampleOverload.params = false := by
    rintro arguments ⟨⟩
    decide +kernel
  have hnew : ∀ n ∈ sampleInherited.members "p/Derived" "f", sameTypes n.params sampleOverload.params = false := by
    decide +kernel
  have hsame := resolve_addMethod? hadd "p/Main" sampleNaming [.ofType "p0" .object] (.inr hskip) (by rintro _ ⟨⟩; exact hnew)
  refine ⟨u, hadd, hskip, hnew, hsame, ?_⟩
  rw [hsame]
  decide +kernel

end Scope

end Linkage
