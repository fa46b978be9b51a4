import Linkage.Proofs.ClassTable.Walk
import Mathlib.Data.List.Basic

/-!
# The breadth-first order

The breadth-first order of what stands above a name goes by rounds: the next round are the names one step above those of the last one, as
far as they are new (`ClassTable.rounds`). The walk of the supertypes is that order, cut off after `hierarchyLimit` names
(`visit_eq_take_rounds`). After `k` rounds just the names are placed that fewer than `k` steps lead to (`AfterRounds`), so the order never
goes back to a nearer name, and after finitely many rounds it is complete (`exists_breadthFirst`). So the walk finds nothing but what steps
lead to, and all of it when it is not cut off (`mem_supertypes_iff`).
-/

namespace Linkage

namespace ClassTable

variable {t : ClassTable} {start a b : String}

/-! ## Rounds -/

/-- The names of a list that are not placed yet, each at its first turn. -/
def fresh (placed names : List String) : List String :=
  (names.filter (· ∉ placed)).eraseDups

/-- The next rounds of an order: the new names of a list, then the new names one step above these, and so on. -/
def rounds (t : ClassTable) : Nat → List String → List String → List String
  | 0, _, _ => []
  | more + 1, placed, names =>
    fresh placed names ++ t.rounds more (placed ++ fresh placed names) ((fresh placed names).flatMap t.parents)

section Fresh

variable {placed names : List String} {n name : String}

/-- The new names of a list are those not placed. -/
theorem mem_fresh_iff : n ∈ fresh placed names ↔ n ∈ names ∧ n ∉ placed := by
  rw [fresh, List.mem_eraseDups, List.mem_filter, decide_eq_true_eq]

/-- A name that is placed is not new. -/
theorem fresh_cons_of_mem (h : name ∈ placed) : fresh placed (name :: names) = fresh placed names := by
  rw [fresh, List.filter_cons_of_neg (by simpa using h), fresh]

/-- A name that is not placed is the next new one, and placed then. -/
theorem fresh_cons_of_not_mem (h : name ∉ placed) : fresh placed (name :: names) = name :: fresh (placed ++ [name]) names := by
  rw [fresh, List.filter_cons_of_pos (by simpa using h), List.eraseDups_cons, List.filter_filter, fresh]
  refine congrArg (fun l => name :: List.eraseDups l) (List.filter_congr fun n _ => ?_)
  rw [Bool.eq_iff_iff]
  simp [and_comm]

/-- A new name is listed once. -/
theorem nodup_fresh (placed names : List String) : (fresh placed names).Nodup := by
  induction names generalizing placed with
  | nil => exact List.nodup_nil
  | cons name names ih =>
    by_cases h : name ∈ placed
    · rw [fresh_cons_of_mem h]
      exact ih placed
    · rw [fresh_cons_of_not_mem h, List.nodup_cons]
      refine ⟨fun hagain => ?_, ih _⟩
      exact (mem_fresh_iff.mp hagain).2 (List.mem_append_right placed List.mem_cons_self)

/-- There are no more new names than names. -/
theorem length_fresh_le (placed names : List String) : (fresh placed names).length ≤ names.length := by
  induction names generalizing placed with
  | nil => exact Nat.le_refl 0
  | cons name names ih =>
    by_cases h : name ∈ placed
    · rw [fresh_cons_of_mem h]
      exact Nat.le_succ_of_le (ih placed)
    · rw [fresh_cons_of_not_mem h]
      exact Nat.succ_le_succ (ih _)

end Fresh

/-! ## The walk goes by rounds -/

section Visit

variable {steps more : Nat} {seen : Std.TreeSet String} {placed queue names : List String} {name : String}

/-- The names that were seen, with one more. -/
theorem mem_insert_seen (seen : Std.TreeSet String) (first n : String) : n ∈ seen.insert first ↔ first = n ∨ n ∈ seen := by
  rw [Std.TreeSet.mem_insert, Std.LawfulEqCmp.compare_eq_iff_eq]

/-- A walk that starts has seen nothing. -/
theorem mem_emptyc_iff_mem_nil (n : String) : n ∈ ({} : Std.TreeSet String) ↔ n ∈ [] := by
  simp

/-- A walk that has seen what is placed still has when both go on by a name. -/
theorem mem_insert_iff_mem_append (hseen : ∀ n, n ∈ seen ↔ n ∈ placed) (name : String) :
    ∀ n, n ∈ seen.insert name ↔ n ∈ placed ++ [name] := by
  intro n
  rw [mem_insert_seen, hseen, List.mem_append, List.mem_singleton, or_comm, eq_comm]

/-- A walk with an empty queue is over. -/
theorem visit_nil (t : ClassTable) (steps : Nat) (seen : Std.TreeSet String) : t.visit steps seen [] = [] := by
  cases steps <;> rfl

/-- A name that was seen is passed over. -/
theorem visit_cons_of_mem (h : name ∈ seen) : t.visit steps seen (name :: queue) = t.visit steps seen queue := by
  cases steps with
  | zero => rfl
  | succ steps => rw [visit, List.dropWhile_cons_of_pos (by simpa using h), visit]

/-- A name that is new is visited, and what is one step above it joins the queue. -/
theorem visit_cons_of_not_mem (h : name ∉ seen) :
    t.visit (steps + 1) seen (name :: queue) = name :: t.visit steps (seen.insert name) (queue ++ t.parents name) := by
  rw [visit, List.dropWhile_cons_of_neg (by simpa using h)]

/-- The walk of the supertypes visits its start, and has what is one step above it in the queue then. -/
theorem supertypes_eq_cons (t : ClassTable) (name : String) : t.supertypes name = t.canonicalName name ::
    t.visit (hierarchyLimit - 1) (({} : Std.TreeSet String).insert (t.canonicalName name)) (t.parents (t.canonicalName name)) :=
  visit_cons_of_not_mem Std.TreeSet.not_mem_emptyc

/-- The new names in front of a queue are visited in a row, as far as the walk goes; then comes what is behind them in the queue and what
is one step above them. -/
theorem visit_append (hseen : ∀ n, n ∈ seen ↔ n ∈ placed) (steps : Nat) (names queue : List String) :
    ∃ seen' : Std.TreeSet String, (∀ n, n ∈ seen' ↔ n ∈ placed ++ fresh placed names) ∧
      t.visit steps seen (names ++ queue) = (fresh placed names).take steps ++
        t.visit (steps - (fresh placed names).length) seen' (queue ++ (fresh placed names).flatMap t.parents) := by
  induction names generalizing steps seen placed queue with
  | nil => exact ⟨seen, by simpa [fresh] using hseen, by simp [fresh]⟩
  | cons name names ih =>
    by_cases h : name ∈ placed
    · rw [fresh_cons_of_mem h, List.cons_append, visit_cons_of_mem ((hseen name).mpr h)]
      exact ih hseen steps queue
    · rw [fresh_cons_of_not_mem h]
      obtain ⟨seen', hmem, hvisit⟩ := ih (mem_insert_iff_mem_append hseen name) (steps - 1) (queue ++ t.parents name)
      refine ⟨seen', by simpa using hmem, ?_⟩
      cases steps with
      | zero => simp [visit]
      | succ steps =>
        rw [List.cons_append, visit_cons_of_not_mem fun hn => h ((hseen name).mp hn), List.append_assoc]
        rw [Nat.add_sub_cancel] at hvisit
        simp [hvisit]

/-- Without names there are no more rounds. -/
theorem rounds_nil (t : ClassTable) (more : Nat) (placed : List String) : t.rounds more placed [] = [] := by
  induction more generalizing placed with
  | zero => rfl
  | succ more ih => simp [rounds, fresh, ih]

/-- What a walk visits are the names of the next rounds, as far as the walk goes. -/
theorem visit_eq_take_rounds (hseen : ∀ n, n ∈ seen ↔ n ∈ placed) (h : steps ≤ more) :
    t.visit steps seen names = (t.rounds more placed names).take steps := by
  induction more generalizing steps seen placed names with
  | zero =>
    rw [Nat.le_zero.mp h]
    rfl
  | succ more ih =>
    obtain ⟨seen', hseen', hvisit⟩ := visit_append (t := t) hseen steps names []
    rw [List.append_nil, List.nil_append] at hvisit
    rw [hvisit, rounds, List.take_append]
    congr 1
    -- a round without a name is the last one, and any other takes a step
    by_cases hempty : fresh placed names = []
    · rw [hempty, List.flatMap_nil, visit_nil, rounds_nil, List.take_nil]
    · have hpos := List.length_pos_iff.mpr hempty
      exact ih hseen' (by omega)

/-- A walk that may visit as many names as stand in its queue visits all of these. -/
theorem mem_visit_of_mem_queue (h : queue.length ≤ steps) (hname : name ∈ queue) : name ∈ seen ∨ name ∈ t.visit steps seen queue := by
  have hseen : ∀ n, n ∈ seen ↔ n ∈ seen.toList := fun n => Std.TreeSet.mem_toList.symm
  obtain ⟨seen', -, hvisit⟩ := visit_append (t := t) hseen steps queue []
  rw [List.append_nil, List.take_of_length_le (Nat.le_trans (length_fresh_le _ _) h)] at hvisit
  by_cases hn : name ∈ seen
  · exact .inl hn
  · rw [hvisit]
    exact .inr (List.mem_append_left _ (mem_fresh_iff.mpr ⟨hname, fun hn' => hn ((hseen name).mpr hn')⟩))

end Visit

/-! ## Distances -/

/-- So many steps up the hierarchy lead from the first name to the second. -/
inductive ReachesIn (t : ClassTable) (start : String) : Nat → String → Prop where
  | refl : ReachesIn t start 0 start
  | tail {k : Nat} {a b : String} : ReachesIn t start k a → t.Step a b → ReachesIn t start (k + 1) b

/-- The first name is no farther from the start than the second: as many steps as lead to the second, or fewer, lead to the first. -/
def NoFarther (t : ClassTable) (start a b : String) : Prop :=
  ∀ k, t.ReachesIn start k b → ∃ j ≤ k, t.ReachesIn start j a

theorem NoFarther.refl (t : ClassTable) (start a : String) : t.NoFarther start a a :=
  fun k h => ⟨k, Nat.le_refl k, h⟩

/-- What can be reached can be reached in some number of steps. -/
theorem reaches_iff_exists_reachesIn : t.Reaches start b ↔ ∃ k, t.ReachesIn start k b := by
  constructor
  · intro h
    induction h with
    | refl => exact ⟨0, .refl⟩
    | tail _ hstep ih =>
      obtain ⟨k, hk⟩ := ih
      exact ⟨k + 1, hk.tail hstep⟩
  · rintro ⟨k, h⟩
    induction h with
    | refl => exact .refl
    | tail _ hstep ih => exact ih.tail hstep

/-- The state of an order after `k` rounds: the names are placed that fewer than `k` steps lead to, and the names of the list, with those
placed already, are the ones that `k` steps lead to. -/
structure AfterRounds (t : ClassTable) (start : String) (k : Nat) (placed names : List String) : Prop where
  mem_placed_iff : ∀ n, n ∈ placed ↔ ∃ j < k, t.ReachesIn start j n
  reachesIn : ∀ n ∈ names, t.ReachesIn start k n
  mem_of_reachesIn : ∀ n, t.ReachesIn start k n → n ∈ placed ∨ n ∈ names

namespace AfterRounds

variable {k more : Nat} {placed names : List String}

/-- Before the first round nothing is placed. -/
theorem initial (t : ClassTable) (start : String) : t.AfterRounds start 0 [] [start] where
  mem_placed_iff := by simp
  reachesIn n hn := by
    rw [List.mem_singleton.mp hn]
    exact .refl
  mem_of_reachesIn n hn := by
    cases hn
    exact .inr List.mem_cons_self

/-- The names of the next round are `k` steps away, and no fewer steps lead to them. -/
theorem of_mem_fresh (h : t.AfterRounds start k placed names) (hb : b ∈ fresh placed names) :
    t.ReachesIn start k b ∧ ∀ j, t.ReachesIn start j b → k ≤ j := by
  obtain ⟨hnames, hnew⟩ := mem_fresh_iff.mp hb
  refine ⟨h.reachesIn b hnames, fun j hj => ?_⟩
  by_contra hlt
  exact hnew ((h.mem_placed_iff b).mpr ⟨j, Nat.lt_of_not_le hlt, hj⟩)

/-- One more round. -/
theorem next (h : t.AfterRounds start k placed names) :
    t.AfterRounds start (k + 1) (placed ++ fresh placed names) ((fresh placed names).flatMap t.parents) := by
  have hplaced : ∀ n, n ∈ placed ++ fresh placed names ↔ ∃ j < k + 1, t.ReachesIn start j n := by
    intro n
    rw [List.mem_append, mem_fresh_iff, h.mem_placed_iff]
    constructor
    · rintro (⟨j, hj, hn⟩ | ⟨hn, -⟩)
      · exact ⟨j, Nat.lt_succ_of_lt hj, hn⟩
      · exact ⟨k, Nat.lt_succ_self k, h.reachesIn n hn⟩
    · rintro ⟨j, hj, hn⟩
      rcases Nat.lt_succ_iff_lt_or_eq.mp hj with hlt | rfl
      · exact .inl ⟨j, hlt, hn⟩
      · rw [← h.mem_placed_iff, or_iff_not_imp_left]
        exact fun hnew => ⟨(h.mem_of_reachesIn n hn).resolve_left hnew, hnew⟩
  refine ⟨hplaced, ?_, ?_⟩
  · intro n hn
    obtain ⟨a, ha, han⟩ := List.mem_flatMap.mp hn
    exact (h.of_mem_fresh ha).1.tail han
  · intro n hn
    obtain _ | ⟨ha, han⟩ := hn
    rename_i a
    by_cases hnew : a ∈ placed
    · -- what leads to `a` in fewer steps leads to `n` in no more than `k`
      obtain ⟨j, hj, ha'⟩ := (h.mem_placed_iff a).mp hnew
      exact .inl ((hplaced n).mpr ⟨j + 1, Nat.succ_lt_succ hj, ha'.tail han⟩)
    · have hfresh := mem_fresh_iff.mpr ⟨(h.mem_of_reachesIn a ha).resolve_left hnew, hnew⟩
      exact .inr (List.mem_flatMap.mpr ⟨a, hfresh, han⟩)

/-- After some more rounds just the names are placed that fewer steps lead to. -/
theorem mem_append_rounds_iff (h : t.AfterRounds start k placed names) (more : Nat) :
    b ∈ placed ++ t.rounds more placed names ↔ ∃ j < k + more, t.ReachesIn start j b := by
  induction more generalizing k placed names with
  | zero => rw [rounds, List.append_nil, Nat.add_zero, h.mem_placed_iff]
  | succ more ih => rw [rounds, ← List.append_assoc, ih h.next, Nat.add_right_comm, Nat.add_assoc]

/-- No name is placed behind one that is farther from the start. -/
theorem pairwise_append_rounds (h : t.AfterRounds start k placed names) (hplaced : placed.Pairwise (t.NoFarther start)) (more : Nat) :
    (placed ++ t.rounds more placed names).Pairwise (t.NoFarther start) := by
  induction more generalizing k placed names with
  | zero =>
    rw [rounds, List.append_nil]
    exact hplaced
  | succ more ih =>
    rw [rounds, ← List.append_assoc]
    refine ih h.next (List.pairwise_append.mpr ⟨hplaced, ?_, ?_⟩)
    · refine List.Pairwise.imp_of_mem ?_ (nodup_fresh placed names)
      intro a b ha hb _ j hj
      exact ⟨k, (h.of_mem_fresh hb).2 j hj, (h.of_mem_fresh ha).1⟩
    · intro a ha b hb j hj
      obtain ⟨i, hi, ha⟩ := (h.mem_placed_iff a).mp ha
      exact ⟨i, Nat.le_of_lt (Nat.lt_of_lt_of_le hi ((h.of_mem_fresh hb).2 j hj)), ha⟩

end AfterRounds

/-- No name is placed twice. -/
theorem nodup_append_rounds {placed : List String} (hplaced : placed.Nodup) (more : Nat) (names : List String) :
    (placed ++ t.rounds more placed names).Nodup := by
  induction more generalizing placed names with
  | zero =>
    rw [rounds, List.append_nil]
    exact hplaced
  | succ more ih =>
    rw [rounds, ← List.append_assoc]
    refine ih (List.nodup_append.mpr ⟨hplaced, nodup_fresh placed names, ?_⟩) _
    rintro a ha b hb rfl
    exact (mem_fresh_iff.mp hb).2 ha

/-! ## The whole order -/

/-- The breadth-first order of what stands above a name: it goes by rounds, names everything that is reached, each once, and no name
behind one that is farther away. -/
structure BreadthFirst (t : ClassTable) (start : String) (order : List String) : Prop where
  eq_rounds : ∃ more, order = t.rounds more [] [start]
  mem_iff : ∀ b, b ∈ order ↔ t.Reaches start b
  nodup : order.Nodup
  noFarther : order.Pairwise (t.NoFarther start)

/-- A step leads to a name that some registered declaration states. -/
theorem exists_names_of_step (t : ClassTable) : ∃ names : List String, ∀ a b, t.Step a b → b ∈ names := by
  refine ⟨t.entries.toList.flatMap fun entry => entry.2.superclass.toList ++ entry.2.interfaces.map t.canonicalName, ?_⟩
  intro a b hab
  obtain ⟨decl, hdecl, hb⟩ := step_iff.mp hab
  have hmem : (decl.name, decl) ∈ t.entries.toList := Std.TreeMap.mem_toList_iff_getElem?_eq_some.mpr (aliasOf_of_underlying? hdecl).2
  exact List.mem_flatMap.mpr ⟨_, hmem, hb⟩

/-- There is a number of steps within which everything is reached that is reached at all. -/
theorem exists_steps (t : ClassTable) (start : String) : ∃ d, ∀ b, t.Reaches start b → ∃ j < d, t.ReachesIn start j b := by
  have hlist : ∀ names : List String, ∃ d, ∀ b ∈ names, t.Reaches start b → ∃ j < d, t.ReachesIn start j b := by
    intro names
    induction names with
    | nil => exact ⟨0, nofun⟩
    | cons name names ih =>
      obtain ⟨d, hd⟩ := ih
      by_cases hname : t.Reaches start name
      · obtain ⟨k, hk⟩ := reaches_iff_exists_reachesIn.mp hname
        refine ⟨max d (k + 1), ?_⟩
        intro b hb hreaches
        rcases List.mem_cons.mp hb with rfl | hb
        · exact ⟨k, by omega, hk⟩
        · obtain ⟨j, hj, hjb⟩ := hd b hb hreaches
          exact ⟨j, by omega, hjb⟩
      · refine ⟨d, ?_⟩
        intro b hb hreaches
        rcases List.mem_cons.mp hb with rfl | hb
        · exact absurd hreaches hname
        · exact hd b hb hreaches
  obtain ⟨names, hnames⟩ := t.exists_names_of_step
  obtain ⟨d, hd⟩ := hlist (start :: names)
  refine ⟨d, fun b hb => hd b ?_ hb⟩
  rcases Relation.ReflTransGen.cases_tail hb with rfl | ⟨a, -, hab⟩
  · exact List.mem_cons_self
  · exact List.mem_cons_of_mem _ (hnames a b hab)

/-- There is a breadth-first order of what stands above a name, and the supertypes of a name are that order, cut off after
`hierarchyLimit` names. -/
theorem exists_breadthFirst (t : ClassTable) (name : String) :
    ∃ order, t.BreadthFirst (t.canonicalName name) order ∧ t.supertypes name = order.take hierarchyLimit := by
  obtain ⟨d, hd⟩ := t.exists_steps (t.canonicalName name)
  have hrounds := AfterRounds.initial t (t.canonicalName name)
  refine ⟨t.rounds (max d hierarchyLimit) [] [t.canonicalName name], ⟨⟨_, rfl⟩, ?_, ?_, ?_⟩, ?_⟩
  · intro b
    have hmem := hrounds.mem_append_rounds_iff (b := b) (max d hierarchyLimit)
    rw [List.nil_append, Nat.zero_add] at hmem
    rw [hmem]
    constructor
    · rintro ⟨j, -, hj⟩
      exact reaches_iff_exists_reachesIn.mpr ⟨j, hj⟩
    · intro hb
      obtain ⟨j, hj, hjb⟩ := hd b hb
      exact ⟨j, Nat.lt_of_lt_of_le hj (Nat.le_max_left d hierarchyLimit), hjb⟩
  · exact nodup_append_rounds List.nodup_nil _ _
  · exact hrounds.pairwise_append_rounds List.Pairwise.nil _
  · exact visit_eq_take_rounds mem_emptyc_iff_mem_nil (Nat.le_max_right d hierarchyLimit)

/-! ## What the walk finds -/

/-- Every supertype that is visited is reached. -/
theorem reaches_of_mem_supertypes {name : String} (h : b ∈ t.supertypes name) : t.Reaches (t.canonicalName name) b := by
  obtain ⟨order, horder, htake⟩ := t.exists_breadthFirst name
  rw [htake] at h
  exact (horder.mem_iff b).mp (List.mem_of_mem_take h)

/-- The supertypes of a name, when the walk is not cut off, are what steps lead to from the name it stands for. -/
theorem mem_supertypes_iff {name : String} (hwhole : t.Whole name) : b ∈ t.supertypes name ↔ t.Reaches (t.canonicalName name) b := by
  obtain ⟨order, horder, htake⟩ := t.exists_breadthFirst name
  have hall : order.length ≤ hierarchyLimit := by
    rw [Whole, htake, List.length_take] at hwhole
    omega
  rw [htake, List.take_of_length_le hall, horder.mem_iff]

/-- No supertype is visited twice. -/
theorem nodup_supertypes (t : ClassTable) (name : String) : (t.supertypes name).Nodup := by
  obtain ⟨order, horder, htake⟩ := t.exists_breadthFirst name
  rw [htake]
  exact (List.take_sublist hierarchyLimit order).nodup horder.nodup

/-- Where all steps lead to the names of a list, a walk visits these and its start at most. -/
theorem length_supertypes_le {names : List String} (h : ∀ a b, t.Step a b → b ∈ names) (name : String) :
    (t.supertypes name).length ≤ names.length + 1 := by
  have hsubset : t.supertypes name ⊆ t.canonicalName name :: names := by
    intro b hb
    rcases Relation.ReflTransGen.cases_tail (reaches_of_mem_supertypes hb) with rfl | ⟨a, -, hab⟩
    · exact List.mem_cons_self
    · exact List.mem_cons_of_mem _ (h a b hab)
  exact (t.nodup_supertypes name).length_le_of_subset hsubset

/-- The walks through a table of declarations are whole when the declarations name few types. -/
theorem whole_registerAll {decls : List ClassDecl}
    (h : (decls.flatMap fun decl => decl.superclass.toList ++ decl.interfaces).length + 1 < hierarchyLimit) (name : String) :
    (empty.registerAll decls).Whole name := by
  have hsteps : ∀ a b, (empty.registerAll decls).Step a b →
      b ∈ decls.flatMap fun decl => decl.superclass.toList ++ decl.interfaces.map (empty.registerAll decls).canonicalName := by
    intro a b hab
    obtain ⟨decl, hdecl, hb⟩ := step_iff.mp hab
    exact List.mem_flatMap.mpr ⟨decl, mem_of_underlying?_registerAll hdecl, hb⟩
  refine Nat.lt_of_le_of_lt (length_supertypes_le hsteps name) ?_
  simpa only [List.length_flatMap, List.length_append, List.length_map] using h

end ClassTable

end Linkage
