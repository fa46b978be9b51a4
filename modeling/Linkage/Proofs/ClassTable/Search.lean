import Linkage.Proofs.ClassTable.BreadthFirst
import Linkage.Proofs.ClassTable.Resolved
import Mathlib.Data.Set.Card
import Mathlib.Order.WellFounded

/-!
# Searches through the hierarchy

A search keeps the names it has found and a queue of names to look at, in which a name may stand many times (`ClassTable.Search`). Every
search ends, in cyclic hierarchies too: a turn either finds a name, for which there is room `hierarchyLimit` times, or shortens the queue
(`Search.wellFounded_turns`). The search along all parents finds the supertypes of a name, that along the stated superclasses its lineage
(`supertypesOf_lineageOf`).
-/

namespace Linkage

namespace ClassTable

/-- The state of a search: the names found so far, and those still to be looked at. -/
structure Search where
  found : List String
  queue : List String

namespace Search

variable {above : String → List String} {s s' : Search}

/-- One turn of a search. The first name leaves the queue; if it is new and there is room for it, it is found, and the names above it join
the queue. -/
def turn (above : String → List String) (s : Search) : Option Search :=
  match s.queue with
  | [] => none
  | name :: rest =>
    if s.found.length < hierarchyLimit ∧ name ∉ s.found then some ⟨s.found ++ [name], rest ++ above name⟩
    else some ⟨s.found, rest⟩

/-- One turn leads from the first state to the second. -/
def Turns (above : String → List String) (s s' : Search) : Prop :=
  s.turn above = some s'

theorem turns_of_new (above : String → List String) {found : List String} (rest : List String) {name : String}
    (hroom : found.length < hierarchyLimit) (hnew : name ∉ found) :
    Turns above ⟨found, name :: rest⟩ ⟨found ++ [name], rest ++ above name⟩ := by
  simp [Turns, turn, hroom, hnew]

theorem turns_of_not_new (above : String → List String) {found : List String} (rest : List String) {name : String}
    (h : ¬ (found.length < hierarchyLimit ∧ name ∉ found)) : Turns above ⟨found, name :: rest⟩ ⟨found, rest⟩ := by
  simp only [Turns, turn, if_neg h]

/-- A turn finds a name for which there is room, or shortens the queue. -/
theorem Turns.cases (h : Turns above s s') :
    s.found.length < hierarchyLimit ∧ s'.found.length = s.found.length + 1 ∨
      s'.found = s.found ∧ s.queue.length = s'.queue.length + 1 := by
  obtain ⟨found, queue⟩ := s
  cases queue with
  | nil => cases h
  | cons name rest =>
    by_cases hnew : found.length < hierarchyLimit ∧ name ∉ found
    · have hturn := turns_of_new above rest hnew.1 hnew.2
      obtain rfl := Option.some.inj (hturn.symm.trans h)
      exact .inl ⟨hnew.1, List.length_append⟩
    · obtain rfl := Option.some.inj ((turns_of_not_new above rest hnew).symm.trans h)
      exact .inr ⟨rfl, rfl⟩

/-- No search goes on for ever. What decreases is the room that is left and, while it stays the same, the length of the queue. -/
theorem wellFounded_turns (above : String → List String) : WellFounded fun s' s => Turns above s s' := by
  have hlex : WellFounded (Prod.Lex (· < ·) (· < ·) : Nat × Nat → Nat × Nat → Prop) :=
    WellFounded.prod_lex Nat.lt_wfRel.wf Nat.lt_wfRel.wf
  refine Subrelation.wf ?_ (InvImage.wf (fun s : Search => (hierarchyLimit - s.found.length, s.queue.length)) hlex)
  intro s' s h
  rcases h.cases with ⟨hroom, hfound⟩ | ⟨hfound, hqueue⟩
  · refine Prod.Lex.left _ _ ?_
    rw [hfound]
    omega
  · simp only [InvImage, hfound]
    refine Prod.Lex.right _ ?_
    omega

/-- Every search from a name comes to an end, where nothing is left to be looked at, and has found these names then. -/
structure Finds (above : String → List String) (start : String) (names : List String) : Prop where
  ends : Acc (fun s' s => Turns above s s') ⟨[], [start]⟩
  found : Relation.ReflTransGen (Turns above) ⟨[], [start]⟩ ⟨names, []⟩

end Search

variable {t : ClassTable} {start : String}

/-- The superclass that stands above a name, if it states one. -/
def superclassAbove (t : ClassTable) (name : String) : List String :=
  (t.superclass? name).toList

/-- A name that states a superclass stands one step below it. -/
theorem step_of_superclass? {a b : String} (h : t.superclass? a = some b) : t.Step a b := by
  obtain ⟨decl, hdecl, hsuperclass⟩ := Option.bind_eq_some_iff.mp h
  exact step_iff.mpr ⟨decl, hdecl, List.mem_append_left _ (Option.mem_toList.mpr hsuperclass)⟩

/-! ## The search along all parents -/

/-- From every state on a search finds what the walk visits that knows the names found and has the same queue. -/
theorem reflTransGen_visit (s : Search) {seen : Std.TreeSet String} (hseen : ∀ n, n ∈ seen ↔ n ∈ s.found) :
    Relation.ReflTransGen (Search.Turns t.parents) s ⟨s.found ++ t.visit (hierarchyLimit - s.found.length) seen s.queue, []⟩ := by
  induction s using (Search.wellFounded_turns t.parents).induction generalizing seen with
  | _ s ih =>
  obtain ⟨found, queue⟩ := s
  cases queue with
  | nil => rw [visit_nil, List.append_nil]
  | cons name rest =>
    by_cases hnew : found.length < hierarchyLimit ∧ name ∉ found
    · have hturn := Search.turns_of_new t.parents rest hnew.1 hnew.2
      obtain ⟨room, hroom⟩ : ∃ room, hierarchyLimit - found.length = room + 1 := ⟨hierarchyLimit - found.length - 1, by omega⟩
      have hleft : hierarchyLimit - (found ++ [name]).length = room := by
        rw [List.length_append, List.length_singleton]
        omega
      have hrest := ih _ hturn (mem_insert_iff_mem_append hseen name)
      rw [hleft, List.append_assoc, List.singleton_append] at hrest
      rw [hroom, visit_cons_of_not_mem fun hn => hnew.2 ((hseen name).mp hn)]
      exact hrest.head hturn
    · have hturn := Search.turns_of_not_new t.parents rest hnew
      have hsame : t.visit (hierarchyLimit - found.length) seen (name :: rest) = t.visit (hierarchyLimit - found.length) seen rest := by
        by_cases hroom : found.length < hierarchyLimit
        · refine visit_cons_of_mem ((hseen name).mpr ?_)
          by_contra hn
          exact hnew ⟨hroom, hn⟩
        · rw [Nat.sub_eq_zero_of_le (Nat.le_of_not_lt hroom)]
          rfl
      rw [hsame]
      exact (ih _ hturn hseen).head hturn

/-! ## The search along the superclasses -/

section Climb

variable {steps : Nat} {seen : Std.TreeSet String} {name : String}

/-- A climb ends at a name that was seen before and at one that states no superclass, and goes on to a stated superclass. -/
theorem climb_cases (t : ClassTable) (steps : Nat) (seen : Std.TreeSet String) (name : String) :
    name ∈ seen ∧ t.climb (steps + 1) seen name = [] ∨
    name ∉ seen ∧ t.superclass? name = none ∧ t.climb (steps + 1) seen name = [name] ∨
    ∃ parent, name ∉ seen ∧ t.superclass? name = some parent ∧
      t.climb (steps + 1) seen name = name :: t.climb steps (seen.insert name) parent := by
  by_cases h : name ∈ seen
  · exact .inl ⟨h, by rw [climb, if_pos h]⟩
  · cases hparent : t.superclass? name with
    | none => exact .inr (.inl ⟨h, rfl, by simp only [climb, if_neg h, hparent]⟩)
    | some parent => exact .inr (.inr ⟨parent, h, rfl, by simp only [climb, if_neg h, hparent]⟩)

/-- A climb that gets anywhere starts at its name. -/
theorem eq_of_mem_head?_climb : ∀ n ∈ (t.climb steps seen name).head?, n = name := by
  intro n hn
  cases steps with
  | zero => cases hn
  | succ steps =>
    rcases t.climb_cases steps seen name with ⟨-, hclimb⟩ | ⟨-, -, hclimb⟩ | ⟨parent, -, -, hclimb⟩ <;> rw [hclimb] at hn
    · cases hn
    · exact (Option.some.inj hn).symm
    · exact (Option.some.inj hn).symm

/-- Each name that a climb passes is the superclass that the one before states. -/
theorem isChain_climb : (t.climb steps seen name).IsChain fun a b => t.superclass? a = some b := by
  induction steps generalizing seen name with
  | zero => exact .nil
  | succ steps ih =>
    rcases t.climb_cases steps seen name with ⟨-, hclimb⟩ | ⟨-, -, hclimb⟩ | ⟨parent, -, hparent, hclimb⟩ <;> rw [hclimb]
    · exact .nil
    · exact .singleton name
    · refine List.isChain_cons.mpr ⟨fun n hn => ?_, ih⟩
      rw [hparent, eq_of_mem_head?_climb n hn]

/-- A climb passes no name that was seen before, and none twice. -/
theorem nodup_climb : (t.climb steps seen name).Nodup ∧ ∀ n ∈ t.climb steps seen name, n ∉ seen := by
  induction steps generalizing seen name with
  | zero => exact ⟨List.nodup_nil, nofun⟩
  | succ steps ih =>
    rcases t.climb_cases steps seen name with ⟨-, hclimb⟩ | ⟨hname, -, hclimb⟩ | ⟨parent, hname, -, hclimb⟩ <;> rw [hclimb]
    · exact ⟨List.nodup_nil, nofun⟩
    · refine ⟨List.nodup_singleton name, fun n hn => ?_⟩
      rw [List.mem_singleton.mp hn]
      exact hname
    · obtain ⟨hnodup, hnew⟩ := @ih (seen.insert name) parent
      have hmem := mem_insert_seen seen name
      refine ⟨List.nodup_cons.mpr ⟨fun hagain => hnew name hagain ((hmem name).mpr (.inl rfl)), hnodup⟩, ?_⟩
      intro n hn
      rcases List.mem_cons.mp hn with rfl | hn
      · exact hname
      · exact fun hseen => hnew n hn ((hmem n).mpr (.inr hseen))

/-- A climb that passes fewer names than it may is closed: with a name it passes the stated superclass, unless that was seen before. -/
theorem climb_closed : (t.climb steps seen name).length = steps ∨
    ∀ a ∈ t.climb steps seen name, ∀ b ∈ t.superclass? a, b ∈ seen ∨ b ∈ t.climb steps seen name := by
  induction steps generalizing seen name with
  | zero => exact .inl rfl
  | succ steps ih =>
    rcases t.climb_cases steps seen name with ⟨-, hclimb⟩ | ⟨-, hnone, hclimb⟩ | ⟨parent, -, hparent, hclimb⟩ <;> rw [hclimb]
    · exact .inr nofun
    · refine .inr fun a ha b hb => ?_
      rw [List.mem_singleton.mp ha, hnone] at hb
      cases hb
    · have hmem := mem_insert_seen seen name
      have hjoin : ∀ b, b ∈ seen.insert name ∨ b ∈ t.climb steps (seen.insert name) parent →
          b ∈ seen ∨ b ∈ name :: t.climb steps (seen.insert name) parent := by
        intro b hb
        rw [hmem, or_assoc] at hb
        rcases hb with rfl | hseen | hb
        · exact .inr List.mem_cons_self
        · exact .inl hseen
        · exact .inr (List.mem_cons_of_mem name hb)
      rcases @ih (seen.insert name) parent with hfull | hclosed
      · exact .inl (congrArg (· + 1) hfull)
      · cases steps with
        | zero => exact .inl rfl
        | succ steps =>
          refine .inr fun a ha b hb => hjoin b ?_
          rcases List.mem_cons.mp ha with rfl | ha
          · rw [hparent] at hb
            obtain rfl := Option.some.inj hb
            -- the climb goes on at the parent, which was seen before or is passed next
            rcases t.climb_cases steps (seen.insert a) parent with ⟨hseen, -⟩ | ⟨-, -, hfirst⟩ | ⟨next, -, -, hfirst⟩
            · exact .inl hseen
            · exact .inr (by simp [hfirst])
            · exact .inr (by simp [hfirst])
          · exact hclosed a ha b hb

/-- What a climb passes is reached from where it starts. -/
theorem reaches_of_mem_climb : ∀ n ∈ t.climb steps seen name, t.Reaches name n := by
  induction steps generalizing seen name with
  | zero => exact nofun
  | succ steps ih =>
    intro n hn
    rcases t.climb_cases steps seen name with ⟨-, hclimb⟩ | ⟨-, -, hclimb⟩ | ⟨parent, -, hparent, hclimb⟩ <;> rw [hclimb] at hn
    · cases hn
    · rw [List.mem_singleton.mp hn]
      exact .refl
    · rcases List.mem_cons.mp hn with rfl | hn
      · exact .refl
      · exact .head (step_of_superclass? hparent) (ih n hn)

/-- From every state with one name to look at, the search along the superclasses finds what a climb from there passes. -/
theorem reflTransGen_climb (found : List String) (name : String) {seen : Std.TreeSet String} (hseen : ∀ n, n ∈ seen ↔ n ∈ found) :
    Relation.ReflTransGen (Search.Turns t.superclassAbove) ⟨found, [name]⟩
      ⟨found ++ t.climb (hierarchyLimit - found.length) seen name, []⟩ := by
  induction hroom : hierarchyLimit - found.length generalizing found name seen with
  | zero =>
    rw [climb, List.append_nil]
    exact .single (Search.turns_of_not_new _ _ fun hnew => by omega)
  | succ room ih =>
    have hturn : name ∉ seen → Search.Turns t.superclassAbove ⟨found, [name]⟩ ⟨found ++ [name], t.superclassAbove name⟩ :=
      fun hname => Search.turns_of_new _ _ (by omega) fun hn => hname ((hseen name).mpr hn)
    rcases t.climb_cases room seen name with ⟨hname, hclimb⟩ | ⟨hname, hnone, hclimb⟩ | ⟨parent, hname, hparent, hclimb⟩ <;> rw [hclimb]
    · rw [List.append_nil]
      exact .single (Search.turns_of_not_new _ _ fun hnew => hnew.2 ((hseen name).mp hname))
    · have hfirst := hturn hname
      rw [superclassAbove, hnone] at hfirst
      exact .single hfirst
    · have hfirst := hturn hname
      rw [superclassAbove, hparent] at hfirst
      have hleft : hierarchyLimit - (found ++ [name]).length = room := by
        rw [List.length_append, List.length_singleton]
        omega
      have hrest := ih (found ++ [name]) parent (mem_insert_iff_mem_append hseen name) hleft
      rw [List.append_assoc, List.singleton_append] at hrest
      exact hrest.head hfirst

end Climb

/-! ## What the walks find -/

/-- The names that the walk along all parents finds from a start: the search for them ends, they are the breadth-first order as far as
`hierarchyLimit` allows, and so everything that is reached when that is no more. -/
structure SupertypesOf (t : ClassTable) (start : String) (names : List String) : Prop where
  finds : Search.Finds t.parents start names
  eq_take : ∃ order, t.BreadthFirst start order ∧ names = order.take hierarchyLimit
  head : names.head? = some start
  nodup : names.Nodup
  reaches : ∀ b ∈ names, t.Reaches start b
  noFarther : names.Pairwise (t.NoFarther start)
  complete : {b | t.Reaches start b}.encard ≤ hierarchyLimit → ∀ b, t.Reaches start b → b ∈ names

/-- The names that the climb along the superclasses passes from a start: the search for them ends, each is the superclass that the one
before states, and they are closed unless there are `hierarchyLimit` of them. All of them are supertypes of the start when these are not
cut off. -/
structure LineageOf (t : ClassTable) (start : String) (names : List String) : Prop where
  finds : Search.Finds t.superclassAbove start names
  head : names.head? = some start
  nodup : names.Nodup
  isChain : names.IsChain fun a b => t.superclass? a = some b
  closed : names.length = hierarchyLimit ∨ ∀ a ∈ names, ∀ b ∈ t.superclass? a, b ∈ names
  mem_supertypes : {b | t.Reaches start b}.encard ≤ hierarchyLimit → ∀ b ∈ names, b ∈ t.supertypes start

/-- The search along all parents from a name ends with its supertypes. -/
theorem supertypesOf_supertypes (t : ClassTable) (name : String) : t.SupertypesOf (t.canonicalName name) (t.supertypes name) := by
  obtain ⟨order, horder, htake⟩ := t.exists_breadthFirst name
  refine ⟨⟨(Search.wellFounded_turns _).apply _, ?_⟩, ⟨order, horder, htake⟩, ?_, t.nodup_supertypes name,
    fun _ => reaches_of_mem_supertypes, ?_, ?_⟩
  · exact reflTransGen_visit ⟨[], [t.canonicalName name]⟩ mem_emptyc_iff_mem_nil
  · rw [supertypes_eq_cons]
    rfl
  · rw [htake]
    exact horder.noFarther.sublist (List.take_sublist hierarchyLimit order)
  · intro hfew b hb
    have hlength : order.length ≤ hierarchyLimit := by
      have hset : {b | t.Reaches (t.canonicalName name) b} = (order.toFinset : Set String) := by
        ext b
        simp [horder.mem_iff]
      rw [hset, Set.encard_coe_eq_coe_finsetCard, List.toFinset_card_of_nodup horder.nodup] at hfew
      exact Nat.cast_le.mp hfew
    rw [htake, List.take_of_length_le hlength]
    exact (horder.mem_iff b).mpr hb

/-- The search along the superclasses from a name ends with its lineage. -/
theorem lineageOf_lineage (t : ClassTable) (name : String) : t.LineageOf (t.canonicalName name) (t.lineage name) := by
  refine ⟨⟨(Search.wellFounded_turns _).apply _, ?_⟩, ?_, nodup_climb.1, isChain_climb, ?_, ?_⟩
  · exact reflTransGen_climb [] (t.canonicalName name) mem_emptyc_iff_mem_nil
  · exact t.head?_lineage name
  · refine climb_closed.imp_right fun hclosed a ha b hb => ?_
    exact (hclosed a ha b hb).resolve_left Std.TreeSet.not_mem_emptyc
  · intro hfew b hb
    rw [supertypes_canonicalName]
    exact (t.supertypesOf_supertypes name).complete hfew b (reaches_of_mem_climb b hb)

/-- Both walks from a name end, in every table: the one finds the breadth-first order of all that stands above the name, as far as
`hierarchyLimit` allows, the other the chain of the superclasses, which is part of it. -/
theorem supertypesOf_lineageOf (t : ClassTable) (name : String) :
    t.SupertypesOf (t.canonicalName name) (t.supertypes name) ∧ t.LineageOf (t.canonicalName name) (t.lineage name) :=
  ⟨t.supertypesOf_supertypes name, t.lineageOf_lineage name⟩

end ClassTable

end Linkage
