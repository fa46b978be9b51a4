import Linkage.Proofs.Resolution.Rule

/-!
# Scores along a chain of superclasses

The score of a candidate is found by climbing from the class that declares it, so a superclass of the target never meets the target on its
way and is charged for all that is left of the chain above it. That is less the farther the superclass is from the target: within ten
classes of the end of a chain, a superclass outranks every one between it and the target (`Candidate.score_le_score_iff`).
-/

namespace Linkage

namespace ClassTable

/-- A chain of superclasses: no name on it is an alias, each is what the one before states for its superclass, the last states none, and no
name comes twice. -/
structure Chain (t : ClassTable) (names : List String) : Prop where
  canonical : ∀ name ∈ names, t.canonicalName name = name
  superclass : ∀ (i : Nat) (name : String), names[i]? = some name → t.superclass? name = names[i + 1]?
  nodup : names.Nodup

namespace Chain

variable {t : ClassTable} {names : List String}

/-- What is left of a chain is a chain. -/
theorem drop (h : t.Chain names) (i : Nat) : t.Chain (names.drop i) where
  canonical name hname := h.canonical name (List.mem_of_mem_drop hname)
  superclass j name hname := by
    rw [List.getElem?_drop] at hname ⊢
    exact h.superclass (i + j) name hname
  nodup := h.nodup.sublist (List.drop_sublist i names)

/-- Climbing a chain visits its names one by one. -/
theorem climb_eq_take {name : String} {rest : List String} (h : t.Chain (name :: rest)) (steps : Nat) {seen : Std.TreeSet String}
    (hseen : ∀ n ∈ name :: rest, n ∉ seen) : t.climb steps seen name = (name :: rest).take steps := by
  induction steps generalizing name rest seen with
  | zero => rfl
  | succ steps ih =>
    have hparent := h.superclass 0 name rfl
    rw [climb, if_neg (hseen name List.mem_cons_self), hparent, List.take_succ_cons]
    cases rest with
    | nil => simp
    | cons parent rest =>
      -- the walk has seen `name` now, which comes no second time, so it is not cut short
      refine congrArg (name :: ·) (ih (h.drop 1) fun n hn => ?_)
      have hne : name ≠ n := fun heq => (List.nodup_cons.mp h.nodup).1 (heq ▸ hn)
      simpa [Std.TreeSet.mem_insert, hne] using hseen n (List.mem_cons_of_mem name hn)

/-- The lineage of a name on a chain is what is left of the chain, as far as the walk goes. -/
theorem lineage (h : t.Chain names) {i : Nat} {name : String} (hname : names[i]? = some name) :
    t.lineage name = (names.drop i).take hierarchyLimit := by
  obtain ⟨hi, rfl⟩ := List.getElem?_eq_some_iff.mp hname
  have hdrop := h.drop i
  rw [List.drop_eq_getElem_cons hi] at hdrop ⊢
  rw [ClassTable.lineage, h.canonical _ (List.getElem_mem hi)]
  exact hdrop.climb_eq_take hierarchyLimit (by simp)

end Chain

end ClassTable

namespace Candidate

variable {t : ClassTable} {names : List String} {target : String} {isType : Bool} {c d : Candidate} {i j : Nat}

/-- A candidate of a superclass of the target loses ten points for each class that is left of the chain from where it is declared. -/
theorem score_of_chain (h : t.Chain names) (htarget : names.head? = some target) (hc : names[i]? = some c.method.declaring) :
    c.score t target isType =
      (if i = 0 then 9 else 9 - (names.length - i)) * 10 + if isType = c.method.isStatic then 9 else 0 := by
  obtain ⟨rest, rfl⟩ := List.head?_eq_some_iff.mp htarget
  rw [score_eq, h.lineage hc]
  by_cases hi : i = 0
  · rw [if_pos hi, hi, List.drop_zero, ClassTable.hierarchyLimit, List.take_succ_cons, List.idxOf_cons_self]
  · have hmissed : target ∉ ((target :: rest).drop i).take ClassTable.hierarchyLimit := by
      intro hmem
      obtain ⟨k, rfl⟩ := Nat.exists_eq_succ_of_ne_zero hi
      exact (List.nodup_cons.mp h.nodup).1 (List.mem_of_mem_drop (List.mem_of_mem_take hmem))
    -- the walk stops far beyond the ninth class, where nothing is left to lose
    have hcost : 9 - min ClassTable.hierarchyLimit ((target :: rest).length - i) = 9 - ((target :: rest).length - i) := by
      rw [ClassTable.hierarchyLimit]
      omega
    rw [if_neg hi, List.idxOf_eq_length hmissed, List.length_take, List.length_drop, hcost]

/-- Of two candidates of the same shape on the chain of the target, the one declared nearer to the target scores no less than the other
just when the target itself declares it, when one class declares both, or when so much is left of the chain that neither scores for being
close. -/
theorem score_le_score_iff (h : t.Chain names) (htarget : names.head? = some target) (hc : names[i]? = some c.method.declaring)
    (hd : names[j]? = some d.method.declaring) (hij : i ≤ j) (hshape : c.method.isStatic = d.method.isStatic) :
    d.score t target isType ≤ c.score t target isType ↔ i = 0 ∨ i = j ∨ 9 ≤ names.length - j := by
  have hj : j < names.length := (List.getElem?_eq_some_iff.mp hd).1
  rw [score_of_chain h htarget hc, score_of_chain h htarget hd, hshape]
  generalize (if isType = d.method.isStatic then 9 else 0) = bonus
  split <;> split <;> omega

/-! ## Four classes in a row -/

/-- A public static method `f` with one parameter. -/
def sampleStatic (type : JType) : MethodDecl :=
  { name := "f", params := [.ofType "x" type], result := .void, access := .accPublic ||| .accStatic }

/-- `p/T` extends `p/Mid`, which declares `f(String)` and extends `p/Base`, which declares `f(Object)`. -/
def sampleLine : ClassTable :=
  .registerAll .empty [ClassTable.objectClass, (ClassDecl.ofClass "p/Base").addMethods [sampleStatic .object],
    { ClassDecl.ofClass "p/Mid" with superclass := some "p/Base" }.addMethods [sampleStatic .string],
    { ClassDecl.ofClass "p/T" with superclass := some "p/Mid" }]

/-- The candidate that a method makes when a string is given. -/
def sampleCandidate (type : JType) (declaring : String) : Candidate :=
  ⟨{ sampleStatic type with declaring := declaring }, 0, false, [.ofType "p0" .string]⟩

theorem chain_sampleLine : sampleLine.Chain ["p/T", "p/Mid", "p/Base", WellKnown.object] where
  canonical := by decide +kernel
  superclass i name hname := by
    match i with
    | 0 => cases hname; decide +kernel
    | 1 => cases hname; decide +kernel
    | 2 => cases hname; decide +kernel
    | 3 => cases hname; decide +kernel
    | i + 4 => cases hname
  nodup := by decide

/-- A method of the target itself is not outranked by one of its superclass's superclass. -/
theorem score_le_score_iff_sampleLine : sampleLine.Chain ["p/T", "p/Mid", "p/Base", WellKnown.object] ∧
    (sampleCandidate .object "p/Base").score sampleLine "p/T" true ≤ (sampleCandidate .string "p/T").score sampleLine "p/T" true := by
  have hown : ["p/T", "p/Mid", "p/Base", WellKnown.object][0]? = some (sampleCandidate .string "p/T").method.declaring := rfl
  have hbase : ["p/T", "p/Mid", "p/Base", WellKnown.object][2]? = some (sampleCandidate .object "p/Base").method.declaring := rfl
  exact ⟨chain_sampleLine, (score_le_score_iff chain_sampleLine rfl hown hbase (by decide) rfl).mpr (.inl rfl)⟩

/-- The method of the farther superclass outranks that of the nearer one, so `T::f` with a string denotes `f(Object)`, although the nearer
superclass has `f(String)`. -/
theorem score_lt_score_sampleLine : sampleLine.Chain ["p/T", "p/Mid", "p/Base", WellKnown.object] ∧
    (sampleCandidate .string "p/Mid").score sampleLine "p/T" true = 69 ∧
    (sampleCandidate .object "p/Base").score sampleLine "p/T" true = 79 ∧
    Scope.resolve ⟨sampleLine, .language, "p/Main"⟩ ⟨.type (.ofClass "p/T") .unknown, "f", none, none, .unknown⟩ [.ofType "p0" .string] =
      .ok { sampleStatic .object with declaring := "p/Base" } :=
  ⟨chain_sampleLine, by decide +kernel, by decide +kernel, by decide +kernel⟩

end Candidate

end Linkage
