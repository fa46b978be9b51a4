import Linkage.Resolution.Basic

/-!
# What resolution picks

A method that is picked is one of those that were looked at, so it is declared, visible and accepts the arguments.
-/

namespace Linkage

namespace Candidate

variable {c : Candidate} {cs : List Candidate}

/-- The earliest candidate is one of them. -/
theorem mem_of_earliest? (h : earliest? cs = some c) : c ∈ cs := by
  induction cs generalizing c with
  | nil => cases h
  | cons d ds ih =>
    unfold earliest? at h
    split at h
    · cases h
      exact List.mem_cons_self
    · rename_i e he
      split at h
      · cases h
        exact List.mem_cons_of_mem d (ih he)
      · cases h
        exact List.mem_cons_self

/-- What is picked is one of the candidates. -/
theorem mem_of_pick? {classes : ClassTable} (h : pick? classes cs = some c) : c ∈ cs := by
  unfold pick? at h
  cases hexact : cs.find? isExact with
  | some d =>
    rw [hexact] at h
    cases h
    exact List.mem_of_find?_eq_some hexact
  | none =>
    rw [hexact] at h
    cases hspecific : cs.find? fun c => c.isMostSpecific classes cs with
    | some d =>
      rw [hspecific] at h
      cases h
      exact List.mem_of_find?_eq_some hspecific
    | none =>
      rw [hspecific] at h
      exact mem_of_earliest? h

end Candidate

/-- The constructor of a class is declared by what its name stands for, and accepts the arguments. -/
theorem Scope.constructorFor_eq_ok {s : Scope} {className : String} {arguments : List Param} {span : Span} {m : MethodDecl}
    (h : s.constructorFor className arguments span = .ok m) :
    ∃ decl, s.classes.underlying? className = some decl ∧ m ∈ decl.methods ∧ m.isConstructor = true ∧
      s.classes.accepts arguments m.params = true := by
  unfold constructorFor at h
  split at h
  · rename_i c hc
    cases h
    obtain ⟨decl, hdecl, hpick⟩ := Option.bind_eq_some_iff.mp hc
    have hmem := Candidate.mem_of_pick? hpick
    obtain ⟨⟨m, order⟩, hm, hcandidate⟩ := List.mem_filterMap.mp hmem
    have hselected := (List.mem_zipIdx' hm).2
    have hgiven := s.policy.mem_of_mem_select s.classes s.accessing (decl.overloads WellKnown.constructor) m
      (by rw [hselected]; exact List.getElem_mem _)
    obtain ⟨hdeclared, hname⟩ := List.mem_filter.mp hgiven
    dsimp only at hcandidate
    split at hcandidate
    · rename_i haccepts
      cases hcandidate
      exact ⟨decl, hdecl, hdeclared, hname, haccepts⟩
    · cases hcandidate
  · cases h

end Linkage
