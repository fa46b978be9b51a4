import Linkage.Proofs.ClassTable.Conversion
import Linkage.Proofs.ClassTable.Members
import Linkage.Proofs.Declaration
import Linkage.Proofs.Resolution
import Mathlib.Data.Option.Basic

/-!
# The rule of resolution

Which method a reference denotes, said without the search for it (`Scope.Denotes`): the candidates are the visible methods that accept
the exact parameters, those of the highest score lead, and among the leaders an exact match comes first, then a most specific method,
then the earliest. `Scope.resolve` answers what the rule says and nothing else.
-/

namespace Linkage

/-- Arguments may be passed for parameters of the same types. -/
theorem ClassTable.Passes.of_sameTypes (t : ClassTable) {args params : List Param} (h : sameTypes args params = true) : t.Passes args params :=
  (sameTypes_iff_forall₂.mp h).imp fun _ _ heq => t.isAssignable_of_equiv heq

/-! ## Scores -/

/-- The number of steps from the start of a chain to a name; the whole length of a chain that the name is not on. -/
inductive StepsTo (chain : List String) (name : String) : Nat → Prop where
  | found {steps : Nat} (here : chain[steps]? = some name) (notBefore : name ∉ chain.take steps) : StepsTo chain name steps
  | missed (notOn : name ∉ chain) : StepsTo chain name chain.length

/-- The first place of a name is the number of steps to it. -/
theorem stepsTo_idxOf (chain : List String) (name : String) : StepsTo chain name (chain.idxOf name) := by
  by_cases h : name ∈ chain
  · refine .found ?_ ?_
    · rw [List.getElem?_eq_getElem (List.idxOf_lt_length_of_mem h), List.getElem_idxOf]
    · intro hbefore
      have hlt := List.idxOf_lt_length_of_mem hbefore
      rw [List.length_take] at hlt
      have heq : (chain.take (chain.idxOf name)).idxOf name = chain.idxOf name := by
        conv_rhs => rw [← List.take_append_drop (chain.idxOf name) chain]
        rw [List.idxOf_append_of_mem hbefore]
      omega
  · rw [List.idxOf_eq_length h]
    exact .missed h

/-- A chain has one number of steps to a name. -/
theorem StepsTo.unique {chain : List String} {name : String} {m n : Nat} (hm : StepsTo chain name m) (hn : StepsTo chain name n) :
    m = n := by
  have hbefore : ∀ {i j : Nat}, chain[i]? = some name → name ∉ chain.take j → j ≤ i := by
    intro i j hi hj
    by_contra hlt
    have htaken : (chain.take j)[i]? = some name := by rw [List.getElem?_take_of_lt (by omega), hi]
    exact hj (List.mem_of_getElem? htaken)
  cases hm with
  | found hm hm' =>
    cases hn with
    | found hn hn' => exact Nat.le_antisymm (hbefore hn hm') (hbefore hm hn')
    | missed hn => exact absurd (List.mem_of_getElem? hm) hn
  | missed hm =>
    cases hn with
    | found hn _ => exact absurd (List.mem_of_getElem? hn) hm
    | missed _ => rfl

namespace Candidate

/-- The score of a candidate: nine less the steps from the class that declares it to the target, at least nothing, times ten, and nine
more when a static method is referred to by a type or an instance method by a value. -/
def Scores (classes : ClassTable) (target : String) (isType : Bool) (c : Candidate) (score : Nat) : Prop :=
  ∃ steps, StepsTo (classes.lineage c.method.declaring) target steps ∧
    score = (9 - steps) * 10 + if isType = c.method.isStatic then 9 else 0

/-- The score that is computed, by the first place of the target in the chain. -/
theorem score_eq (classes : ClassTable) (target : String) (isType : Bool) (c : Candidate) :
    c.score classes target isType =
      (9 - (classes.lineage c.method.declaring).idxOf target) * 10 + if isType = c.method.isStatic then 9 else 0 := by
  simp only [score, closeness, closestLevel, agreementBonus, decide_eq_true_eq]

/-- The score that is computed is the one score that a candidate has. -/
theorem scores_iff {classes : ClassTable} {target : String} {isType : Bool} {c : Candidate} {score : Nat} :
    c.Scores classes target isType score ↔ score = c.score classes target isType := by
  constructor
  · rintro ⟨steps, hsteps, rfl⟩
    rw [hsteps.unique (stepsTo_idxOf _ _), score_eq]
  · rintro rfl
    exact ⟨_, stepsTo_idxOf _ _, c.score_eq classes target isType⟩

/-! ## Ties -/

/-- Of the candidates with a property, the one looked at first. -/
structure Earliest (P : Candidate → Prop) (c : Candidate) : Prop where
  holds : P c
  least : ∀ d, P d → c.order ≤ d.order

/-- The parameters have the types of the arguments. -/
def Exact (c : Candidate) : Prop :=
  List.Forall₂ (fun arg param => arg.type ≈ param.type) c.arguments c.method.params

/-- The parameters may be passed to every candidate with a property. -/
def FitsAll (classes : ClassTable) (P : Candidate → Prop) (c : Candidate) : Prop :=
  ∀ d, P d → classes.Passes c.method.params d.method.params

/-- Which of several candidates is preferred: an exact one if there is any, else one that fits all if there is any, else any; and of
those the earliest. -/
inductive Preferred (classes : ClassTable) (P : Candidate → Prop) (c : Candidate) : Prop where
  | exact (first : Earliest (fun d => P d ∧ d.Exact) c)
  | mostSpecific (noExact : ∀ d, P d → ¬ d.Exact) (first : Earliest (fun d => P d ∧ d.FitsAll classes P) c)
  | earliest (noExact : ∀ d, P d → ¬ d.Exact) (noneFits : ∀ d, P d → ¬ d.FitsAll classes P) (first : Earliest P c)

variable {classes : ClassTable} {P : Candidate → Prop} {c d : Candidate} {cs : List Candidate}

/-- A preferred candidate is one of those it is preferred to. -/
theorem Preferred.holds (h : Preferred classes P c) : P c := by
  cases h with
  | exact h => exact h.holds.1
  | mostSpecific _ h => exact h.holds.1
  | earliest _ _ h => exact h.holds

/-- Where candidates are told apart by their place, one is preferred at most. -/
theorem Preferred.unique (hP : ∀ c d, P c → P d → c.order = d.order → c = d) (hc : Preferred classes P c)
    (hd : Preferred classes P d) : c = d := by
  have hfirst : ∀ {Q : Candidate → Prop}, Earliest Q c → Earliest Q d → c.order = d.order := fun hc hd =>
    Nat.le_antisymm (hc.least d hd.holds) (hd.least c hc.holds)
  refine hP c d hc.holds hd.holds ?_
  cases hc with
  | exact hc =>
    cases hd with
    | exact hd => exact hfirst hc hd
    | mostSpecific hno _ => exact absurd hc.holds.2 (hno c hc.holds.1)
    | earliest hno _ _ => exact absurd hc.holds.2 (hno c hc.holds.1)
  | mostSpecific hno hc =>
    cases hd with
    | exact hd => exact absurd hd.holds.2 (hno d hd.holds.1)
    | mostSpecific _ hd => exact hfirst hc hd
    | earliest _ hno' _ => exact absurd hc.holds.2 (hno' c hc.holds.1)
  | earliest hno hno' hc =>
    cases hd with
    | exact hd => exact absurd hd.holds.2 (hno d hd.holds.1)
    | mostSpecific _ hd => exact absurd hd.holds.2 (hno' d hd.holds.1)
    | earliest _ _ hd => exact hfirst hc hd

/-! ## What is picked from a list -/

/-- In the order in which they were looked at. -/
abbrev InOrder (cs : List Candidate) : Prop :=
  cs.Pairwise fun c d => c.order < d.order

/-- Whether a candidate is exact is computed. -/
theorem isExact_iff : c.isExact = true ↔ c.Exact :=
  sameTypes_iff_forall₂

/-- Whether a candidate fits all of a list is computed. -/
theorem isMostSpecific_iff : c.isMostSpecific classes cs = true ↔ c.FitsAll classes (· ∈ cs) := by
  simp only [isMostSpecific, List.all_eq_true, ClassTable.accepts_iff_passes, FitsAll]

/-- The first match in a list in order is the earliest. -/
theorem earliest_of_find? (hcs : InOrder cs) {p : Candidate → Bool} (h : cs.find? p = some c) :
    Earliest (fun d => d ∈ cs ∧ p d = true) c := by
  obtain ⟨hp, before, after, rfl, hbefore⟩ := List.find?_eq_some_iff_append.mp h
  refine ⟨⟨by simp, hp⟩, ?_⟩
  rintro d ⟨hd, hpd⟩
  rcases List.mem_append.mp hd with hd | hd
  · have := hbefore d hd
    simp [hpd] at this
  · rcases List.mem_cons.mp hd with rfl | hd
    · exact Nat.le_refl _
    · have hcd := (List.pairwise_cons.mp (List.pairwise_append.mp hcs).2.1).1 d hd
      exact Nat.le_of_lt hcd

/-- The candidate of least order of a list in order is its head. -/
theorem earliest?_cons (hcs : InOrder (c :: cs)) : earliest? (c :: cs) = some c := by
  unfold earliest?
  cases h : earliest? cs with
  | none => rfl
  | some d =>
    have hlt := (List.pairwise_cons.mp hcs).1 d (mem_of_earliest? h)
    simp only [if_neg (Nat.not_lt.mpr (Nat.le_of_lt hlt))]

/-- What is picked from a list in order is preferred among its members. -/
theorem preferred_of_pick? (hcs : InOrder cs) (h : pick? classes cs = some c) : Preferred classes (· ∈ cs) c := by
  unfold pick? at h
  cases hexact : cs.find? isExact with
  | some d =>
    rw [hexact] at h
    cases h
    obtain ⟨hholds, hleast⟩ := earliest_of_find? hcs hexact
    exact .exact ⟨⟨hholds.1, isExact_iff.mp hholds.2⟩, fun d hd => hleast d ⟨hd.1, isExact_iff.mpr hd.2⟩⟩
  | none =>
    have hno : ∀ d, d ∈ cs → ¬ d.Exact := fun d hd he => List.find?_eq_none.mp hexact d hd (isExact_iff.mpr he)
    rw [hexact] at h
    cases hspecific : cs.find? fun c => c.isMostSpecific classes cs with
    | some d =>
      rw [hspecific] at h
      cases h
      obtain ⟨hholds, hleast⟩ := earliest_of_find? hcs hspecific
      exact .mostSpecific hno
        ⟨⟨hholds.1, isMostSpecific_iff.mp hholds.2⟩, fun d hd => hleast d ⟨hd.1, isMostSpecific_iff.mpr hd.2⟩⟩
    | none =>
      have hno' : ∀ d, d ∈ cs → ¬ d.FitsAll classes (· ∈ cs) := fun d hd hf =>
        List.find?_eq_none.mp hspecific d hd (isMostSpecific_iff.mpr hf)
      rw [hspecific] at h
      cases cs with
      | nil => cases h
      | cons d ds =>
        obtain rfl : d = c := Option.some.inj ((earliest?_cons hcs).symm.trans h)
        refine .earliest hno hno' ⟨List.mem_cons_self, fun e he => ?_⟩
        rcases List.mem_cons.mp he with rfl | he
        · exact Nat.le_refl _
        · exact Nat.le_of_lt ((List.pairwise_cons.mp hcs).1 e he)

/-- From a list that is not empty something is picked. -/
theorem pick?_ne_none (hcs : cs ≠ []) : pick? classes cs ≠ none := by
  have hearliest : earliest? cs ≠ none := by
    cases cs with
    | nil => exact absurd rfl hcs
    | cons c cs =>
      unfold earliest?
      split
      · simp
      · split <;> simp
  unfold pick?
  cases cs.find? isExact with
  | some d => simp
  | none =>
    cases cs.find? fun c => c.isMostSpecific classes cs with
    | some d => simp
    | none => simpa using hearliest

/-- No candidate has more than the top score. -/
theorem le_topScore (score : Candidate → Nat) (h : c ∈ cs) : score c ≤ topScore score cs := by
  induction cs with
  | nil => cases h
  | cons d ds ih =>
    rcases List.mem_cons.mp h with rfl | h
    · exact Nat.le_max_left _ _
    · exact Nat.le_trans (ih h) (Nat.le_max_right _ _)

/-- Some candidate has the top score. -/
theorem exists_topScore (score : Candidate → Nat) (hcs : cs ≠ []) : ∃ c ∈ cs, score c = topScore score cs := by
  induction cs with
  | nil => exact absurd rfl hcs
  | cons d ds ih =>
    rcases Nat.le_total (topScore score ds) (score d) with hle | hle
    · exact ⟨d, List.mem_cons_self, (Nat.max_eq_left hle).symm⟩
    · cases ds with
      | nil => exact ⟨d, List.mem_cons_self, (Nat.max_eq_left (Nat.zero_le _)).symm⟩
      | cons e es =>
        obtain ⟨c, hc, hscore⟩ := ih (by simp)
        exact ⟨c, List.mem_cons_of_mem d hc, hscore.trans (Nat.max_eq_right hle).symm⟩

/-- The best of a list are those that none outranks. -/
theorem mem_best_iff (score : Candidate → Nat) : c ∈ best score cs ↔ c ∈ cs ∧ ∀ d ∈ cs, score d ≤ score c := by
  simp only [best, List.mem_filter, decide_eq_true_eq]
  constructor
  · rintro ⟨hc, htop⟩
    exact ⟨hc, fun d hd => htop ▸ le_topScore score hd⟩
  · rintro ⟨hc, hmax⟩
    obtain ⟨d, hd, htop⟩ := exists_topScore score (List.ne_nil_of_mem hc)
    exact ⟨hc, Nat.le_antisymm (le_topScore score hc) (htop ▸ hmax d hd)⟩

end Candidate

/-! ## What a reference denotes -/

namespace Scope

/-- A visible method of the target's hierarchy that a reference may denote: its parameters take the exact parameters, the first of which
is its receiver when an instance method is referred to by a type. `order` is its place among the visible methods. -/
structure IsCandidate (s : Scope) (r : Reference) (exact : List Param) (typeName : String) (c : Candidate) : Prop where
  visible : (s.visibleMembers typeName r.member)[c.order]? = some c.method
  takesReceiver : c.takesReceiver = (r.target.isType && !c.method.isStatic)
  arguments : if c.takesReceiver then ∃ receiver, exact = receiver :: c.arguments else exact = c.arguments
  accepted : s.classes.Passes c.arguments c.method.params

/-- A candidate that no other outranks. -/
structure Leads (s : Scope) (r : Reference) (exact : List Param) (typeName : String) (c : Candidate) : Prop where
  candidate : s.IsCandidate r exact typeName c
  highest : ∀ d, s.IsCandidate r exact typeName d → ∀ m n, d.Scores s.classes (s.classes.canonicalName typeName) r.target.isType m →
    c.Scores s.classes (s.classes.canonicalName typeName) r.target.isType n → m ≤ n

/-- The rule of resolution: what becomes of a reference with its exact parameters. -/
inductive Denotes (s : Scope) (r : Reference) (exact : List Param) : Except Fault MethodDecl → Prop where
  | noMembers (type : r.target.staticType.isReference = false) :
    Denotes s r exact (.error (.shape (.noMembers r.target.staticType) r.span))
  | unresolved {typeName : String} (type : lookupName? r.target.staticType = some typeName)
    (none : ∀ c, ¬ s.IsCandidate r exact typeName c) :
    Denotes s r exact (.error (.unresolved r.member (exact.map (·.type)) r.target.staticType r.span))
  | receiverType {typeName : String} {c : Candidate} {receiver : Param} (type : lookupName? r.target.staticType = some typeName)
    (preferred : c.Preferred s.classes (s.Leads r exact typeName)) (takes : c.takesReceiver = true)
    (first : exact.head? = some receiver) (noSubtype : s.classes.isSubtype receiver.type r.target.staticType = false) :
    Denotes s r exact (.error (.receiverType receiver.type r.target.staticType r.target.span))
  | method {typeName : String} {c : Candidate} (type : lookupName? r.target.staticType = some typeName)
    (preferred : c.Preferred s.classes (s.Leads r exact typeName))
    (subtype : c.takesReceiver = true → ∀ receiver, exact.head? = some receiver →
      s.classes.isSubtype receiver.type r.target.staticType = true) :
    Denotes s r exact (.ok c.method)

variable {s : Scope} {r : Reference} {exact : List Param} {typeName : String} {c : Candidate}

/-- Only references have members. -/
theorem lookupName?_eq_none_iff {type : JType} : lookupName? type = none ↔ type.isReference = false := by
  cases type <;> simp [lookupName?, JType.internalName?, JType.isReference]

/-- The arguments left for a method: all of them, or those behind the receiver. -/
theorem arguments?_eq_some_iff {isType : Bool} {m : MethodDecl} {arguments : List Param} :
    arguments? isType exact m = some arguments ↔
      if (isType && !m.isStatic) = true then ∃ receiver, exact = receiver :: arguments else exact = arguments := by
  unfold arguments?
  split
  · cases exact with
    | nil => simp
    | cons receiver rest => simp
  · simp

/-- A method is a candidate when the arguments left for it may be passed. -/
theorem candidate?_eq_some_iff {m : MethodDecl} {order : Nat} :
    s.candidate? r.target.isType exact m order = some c ↔ c.method = m ∧ c.order = order ∧
      c.takesReceiver = (r.target.isType && !m.isStatic) ∧
      (if (r.target.isType && !m.isStatic) = true then ∃ receiver, exact = receiver :: c.arguments else exact = c.arguments) ∧
      s.classes.Passes c.arguments m.params := by
  unfold candidate?
  simp only [Option.bind_eq_bind, Option.bind_eq_some_iff, arguments?_eq_some_iff, Option.guard_eq_some', ← ClassTable.accepts_iff_passes]
  constructor
  · rintro ⟨arguments, harguments, -, haccepts, hc⟩
    cases hc
    exact ⟨rfl, rfl, rfl, harguments, haccepts⟩
  · rintro ⟨rfl, rfl, htakes, harguments, haccepts⟩
    refine ⟨c.arguments, harguments, (), haccepts, ?_⟩
    rw [← htakes]
    rfl

/-- The candidates that are searched for are those of the rule. -/
theorem mem_candidates_iff : c ∈ s.candidates r.target.isType exact typeName r.member ↔ s.IsCandidate r exact typeName c := by
  simp only [candidates, List.mem_filterMap, Prod.exists, candidate?_eq_some_iff, List.mem_zipIdx_iff_getElem?]
  constructor
  · rintro ⟨m, order, hvisible, rfl, rfl, htakes, harguments, haccepts⟩
    rw [← htakes] at harguments
    exact ⟨hvisible, htakes, harguments, haccepts⟩
  · rintro ⟨hvisible, htakes, harguments, haccepts⟩
    rw [htakes] at harguments
    exact ⟨c.method, c.order, hvisible, rfl, rfl, htakes, harguments, haccepts⟩

/-- Candidates stand in the order of the methods. -/
theorem inOrder_candidates : Candidate.InOrder (s.candidates r.target.isType exact typeName r.member) := by
  rw [candidates, Candidate.InOrder, List.pairwise_filterMap]
  refine (pairwise_zipIdx _).imp ?_
  rintro ⟨m, i⟩ ⟨n, j⟩ hlt c hc d hd
  obtain ⟨-, rfl, -⟩ := candidate?_eq_some_iff.mp hc
  obtain ⟨-, rfl, -⟩ := candidate?_eq_some_iff.mp hd
  exact hlt

/-- A candidate is known by its place. -/
theorem IsCandidate.eq_of_order {d : Candidate} (hc : s.IsCandidate r exact typeName c) (hd : s.IsCandidate r exact typeName d)
    (h : c.order = d.order) : c = d := by
  obtain ⟨method, order, takesReceiver, arguments⟩ := c
  obtain ⟨method', order', takesReceiver', arguments'⟩ := d
  obtain ⟨hvisible, htakes, harguments, -⟩ := hc
  obtain ⟨hvisible', htakes', harguments', -⟩ := hd
  dsimp only at *
  subst h
  obtain rfl := Option.some.inj (hvisible.symm.trans hvisible')
  obtain rfl := htakes.trans htakes'.symm
  split at harguments
  · obtain ⟨receiver, rfl⟩ := harguments
    simp_all
  · simp_all

/-- Ranking a single candidate picks it. -/
theorem choose?_eq_pick? (target : String) (isType : Bool) (cs : List Candidate) :
    s.choose? target isType cs = Candidate.pick? s.classes (Candidate.best (Candidate.score s.classes target isType) cs) := by
  match cs with
  | [] => rfl
  | [c] =>
    have hbest : Candidate.best (Candidate.score s.classes target isType) [c] = [c] := by
      simp [Candidate.best, Candidate.topScore]
    have hpick : Candidate.pick? s.classes [c] ≠ none := Candidate.pick?_ne_none (by simp)
    obtain ⟨d, hd⟩ := Option.ne_none_iff_exists'.mp hpick
    rw [choose?, hbest, hd]
    rw [List.mem_singleton.mp (Candidate.mem_of_pick? hd)]
  | c :: d :: cs => rfl

/-- The candidates with the top score are the ones that lead. -/
theorem mem_best_candidates_iff :
    c ∈ Candidate.best (Candidate.score s.classes (s.classes.canonicalName typeName) r.target.isType)
        (s.candidates r.target.isType exact typeName r.member) ↔ s.Leads r exact typeName c := by
  rw [Candidate.mem_best_iff]
  simp only [mem_candidates_iff]
  constructor
  · rintro ⟨hc, hmax⟩
    refine ⟨hc, fun d hd m n hm hn => ?_⟩
    rw [Candidate.scores_iff.mp hm, Candidate.scores_iff.mp hn]
    exact hmax d hd
  · rintro ⟨hc, hmax⟩
    exact ⟨hc, fun d hd => hmax d hd _ _ (Candidate.scores_iff.mpr rfl) (Candidate.scores_iff.mpr rfl)⟩

/-- The candidate that is chosen is the preferred one among those that lead. -/
theorem preferred_of_choose? (h : s.choose? (s.classes.canonicalName typeName) r.target.isType
    (s.candidates r.target.isType exact typeName r.member) = some c) : c.Preferred s.classes (s.Leads r exact typeName) := by
  rw [choose?_eq_pick?] at h
  have hleads : (· ∈ Candidate.best (Candidate.score s.classes (s.classes.canonicalName typeName) r.target.isType)
      (s.candidates r.target.isType exact typeName r.member)) = s.Leads r exact typeName :=
    funext fun _ => propext mem_best_candidates_iff
  rw [← hleads]
  exact Candidate.preferred_of_pick? (inOrder_candidates.filter _) h

/-- Where none is chosen, there is no candidate. -/
theorem isCandidate_eq_false_of_choose? (h : s.choose? (s.classes.canonicalName typeName) r.target.isType
    (s.candidates r.target.isType exact typeName r.member) = none) : ¬ s.IsCandidate r exact typeName c := by
  intro hc
  rw [choose?_eq_pick?] at h
  obtain ⟨d, hd, htop⟩ := Candidate.exists_topScore
    (Candidate.score s.classes (s.classes.canonicalName typeName) r.target.isType) (List.ne_nil_of_mem (mem_candidates_iff.mpr hc))
  have hbest : d ∈ Candidate.best (Candidate.score s.classes (s.classes.canonicalName typeName) r.target.isType)
      (s.candidates r.target.isType exact typeName r.member) :=
    List.mem_filter.mpr ⟨hd, decide_eq_true htop⟩
  exact Candidate.pick?_ne_none (List.ne_nil_of_mem hbest) h

/-- The answer of resolution follows the rule. -/
theorem denotes_resolve (s : Scope) (r : Reference) (exact : List Param) : s.Denotes r exact (s.resolve r exact) := by
  unfold resolve
  dsimp only
  split
  · rename_i hname
    exact .noMembers (lookupName?_eq_none_iff.mp hname)
  · rename_i typeName hname
    split
    · rename_i hchoose
      exact .unresolved hname fun c => isCandidate_eq_false_of_choose? hchoose
    · rename_i c hchoose
      have hpreferred := preferred_of_choose? hchoose
      unfold requireReceiver
      split
      · rename_i receiver rest htakes
        cases hsubtype : s.classes.isSubtype receiver.type r.target.staticType with
        | true =>
          refine .method hname hpreferred ?_
          rintro - _ ⟨⟩
          exact hsubtype
        | false => exact .receiverType hname hpreferred htakes rfl hsubtype
      · rename_i hneither
        refine .method hname hpreferred ?_
        intro htakes receiver hfirst
        obtain ⟨rest, hrest⟩ := List.head?_eq_some_iff.mp hfirst
        exact (hneither receiver rest htakes hrest).elim

/-- The rule gives one answer. -/
theorem Denotes.unique {a b : Except Fault MethodDecl} (ha : s.Denotes r exact a) (hb : s.Denotes r exact b) : a = b := by
  -- candidates stand in different places, so the rule prefers one of them only
  have hleads : ∀ {typeName c d}, s.Leads r exact typeName c → s.Leads r exact typeName d → c.order = d.order → c = d :=
    fun hc hd => hc.candidate.eq_of_order hd.candidate
  have hnamed : ∀ {typeName}, r.target.staticType.isReference = false → lookupName? r.target.staticType ≠ some typeName := by
    intro typeName h hname
    rw [lookupName?_eq_none_iff.mpr h] at hname
    cases hname
  cases ha with
  | noMembers h =>
    cases hb with
    | noMembers _ => rfl
    | unresolved hname _ => exact absurd hname (hnamed h)
    | receiverType hname _ _ _ _ => exact absurd hname (hnamed h)
    | method hname _ _ => exact absurd hname (hnamed h)
  | unresolved hname hnone =>
    cases hb with
    | noMembers h => exact absurd hname (hnamed h)
    | unresolved _ _ => rfl
    | receiverType hname' hc _ _ _ =>
      obtain rfl := Option.some.inj (hname.symm.trans hname')
      exact absurd hc.holds.candidate (hnone _)
    | method hname' hc _ =>
      obtain rfl := Option.some.inj (hname.symm.trans hname')
      exact absurd hc.holds.candidate (hnone _)
  | receiverType hname hc htakes hfirst hsub =>
    cases hb with
    | noMembers h => exact absurd hname (hnamed h)
    | unresolved hname' hnone =>
      obtain rfl := Option.some.inj (hname.symm.trans hname')
      exact absurd hc.holds.candidate (hnone _)
    | receiverType hname' hd _ hfirst' _ =>
      obtain rfl := Option.some.inj (hfirst.symm.trans hfirst')
      rfl
    | method hname' hd hsub' =>
      obtain rfl := Option.some.inj (hname.symm.trans hname')
      obtain rfl := hc.unique (fun _ _ => hleads) hd
      rw [hsub' htakes _ hfirst] at hsub
      cases hsub
  | method hname hc hsub =>
    cases hb with
    | noMembers h => exact absurd hname (hnamed h)
    | unresolved hname' hnone =>
      obtain rfl := Option.some.inj (hname.symm.trans hname')
      exact absurd hc.holds.candidate (hnone _)
    | receiverType hname' hd htakes hfirst hsub' =>
      obtain rfl := Option.some.inj (hname.symm.trans hname')
      obtain rfl := hc.unique (fun _ _ => hleads) hd
      rw [hsub htakes _ hfirst] at hsub'
      cases hsub'
    | method hname' hd _ =>
      obtain rfl := Option.some.inj (hname.symm.trans hname')
      obtain rfl := hc.unique (fun _ _ => hleads) hd
      rfl

/-- Resolution answers what the rule says: the fault of the target, of the want of a candidate or of the receiver, or the preferred one of
the candidates that no other outranks. -/
theorem resolve_eq_iff (s : Scope) (r : Reference) (exact : List Param) (result : Except Fault MethodDecl) :
    s.resolve r exact = result ↔ s.Denotes r exact result := by
  constructor
  · rintro rfl
    exact s.denotes_resolve r exact
  · exact (s.denotes_resolve r exact).unique

/-- A method that is denoted takes the exact parameters; an instance method that is referred to by a type takes the first as its
receiver, which is of the target type. -/
theorem passes_of_resolve {m : MethodDecl} (h : s.resolve r exact = .ok m) :
    if (r.target.isType && !m.isStatic) = true then
      ∃ receiver rest, exact = receiver :: rest ∧ s.classes.isSubtype receiver.type r.target.staticType = true ∧
        s.classes.Passes rest m.params
    else s.classes.Passes exact m.params := by
  have hdenotes := s.denotes_resolve r exact
  rw [h] at hdenotes
  cases hdenotes with
  | @method typeName c hname hpreferred hsubtype =>
    obtain ⟨-, htakes, harguments, haccepted⟩ := hpreferred.holds.candidate
    rw [← htakes]
    split at harguments
    · rename_i hreceiver
      obtain ⟨receiver, rfl⟩ := harguments
      rw [if_pos hreceiver]
      exact ⟨receiver, c.arguments, rfl, hsubtype hreceiver receiver rfl, haccepted⟩
    · rename_i hnone
      rw [if_neg hnone, harguments]
      exact haccepted

end Scope

end Linkage
