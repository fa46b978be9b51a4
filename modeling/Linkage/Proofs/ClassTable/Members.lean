import Linkage.Proofs.ClassTable.Hierarchy
import Mathlib.Data.List.Basic
import Mathlib.Data.List.Pairwise

/-!
# Members of a hierarchy, and a method that is added

Of several methods with the same parameter types the first one is a member (`mem_firstOfEach_iff`). A method that joins a type may show up
among the members of every type below it. If none of these members has the same parameter types, it hides none and is hidden by none, so the
members are what they were, and perhaps that method (`ClassTable.filter_members_addMethod?`).
-/

namespace Linkage

/-- Places in a list are in order. -/
theorem pairwise_zipIdx {α : Type} (xs : List α) : xs.zipIdx.Pairwise fun a b => a.2 < b.2 := by
  refine List.pairwise_map.mp ?_
  rw [List.zipIdx_map_snd]
  exact List.pairwise_lt_range'

/-! ## The first of each -/

section FirstOfEach

variable {α : Type} {same : α → α → Bool} {xs : List α}

/-- Members may be left out first or last, when no member that stays is the same as one that is left out. -/
theorem filter_firstOfEach {p : α → Bool} (h : ∀ x ∈ xs, ∀ y ∈ xs, p x = false → p y = true → same x y = false) :
    (firstOfEach same xs).filter p = firstOfEach same (xs.filter p) := by
  induction xs with
  | nil => rfl
  | cons x xs ih =>
    have hrest := ih fun y hy z hz => h y (List.mem_cons_of_mem x hy) z (List.mem_cons_of_mem x hz)
    rw [firstOfEach]
    cases hx : p x with
    | true => rw [List.filter_cons_of_pos hx, List.filter_cons_of_pos hx, List.filter_comm, hrest, firstOfEach]
    | false =>
      -- what stands first is left out, and it hides nothing that stays
      rw [List.filter_cons_of_neg (by simp [hx]), List.filter_cons_of_neg (by simp [hx]), ← hrest, List.filter_filter]
      refine List.filter_congr fun y hy => ?_
      cases hpy : p y with
      | false => rfl
      | true =>
        have hmem := List.mem_cons_of_mem x ((firstOfEach_sublist same xs).subset hy)
        rw [h x List.mem_cons_self y hmem hx hpy]
        rfl

/-- A member that is not kept is the same as one that is. -/
theorem exists_mem_firstOfEach (hrefl : ∀ x, same x x = true) (htrans : ∀ x y z, same x y = true → same y z = true → same x z = true)
    {x : α} (hx : x ∈ xs) : ∃ y ∈ firstOfEach same xs, same y x = true := by
  induction xs with
  | nil => cases hx
  | cons z xs ih =>
    rw [firstOfEach]
    rcases List.mem_cons.mp hx with rfl | hx
    · exact ⟨x, List.mem_cons_self, hrefl x⟩
    · obtain ⟨y, hy, hyx⟩ := ih hx
      cases hzy : same z y with
      | true => exact ⟨z, List.mem_cons_self, htrans z y x hzy hyx⟩
      | false => exact ⟨y, List.mem_cons_of_mem z (List.mem_filter.mpr ⟨hy, by rw [hzy]; rfl⟩), hyx⟩

/-- What is kept of a list are the members that nothing before them is the same as. -/
theorem mem_firstOfEach_iff {x : α} :
    x ∈ firstOfEach same xs ↔ ∃ before after, xs = before ++ x :: after ∧ ∀ y ∈ before, same y x = false := by
  induction xs with
  | nil => simp [firstOfEach]
  | cons a as ih =>
    rw [firstOfEach, List.mem_cons, List.mem_filter, ih]
    constructor
    · rintro (rfl | ⟨⟨before, after, rfl, hbefore⟩, hnew⟩)
      · exact ⟨[], as, rfl, by simp⟩
      · refine ⟨a :: before, after, rfl, ?_⟩
        intro y hy
        rcases List.mem_cons.mp hy with rfl | hy
        · simpa using hnew
        · exact hbefore y hy
    · rintro ⟨before, after, heq, hbefore⟩
      cases before with
      | nil => exact .inl (List.cons.inj heq).1.symm
      | cons b before =>
        obtain ⟨rfl, rfl⟩ := List.cons.inj heq
        refine .inr ⟨⟨before, after, rfl, fun y hy => hbefore y (List.mem_cons_of_mem a hy)⟩, ?_⟩
        simp [hbefore a List.mem_cons_self]

/-- No two members that are kept are the same. -/
theorem eq_of_mem_firstOfEach (hsymm : ∀ x y, same x y = true → same y x = true) {x y : α} (hx : x ∈ firstOfEach same xs)
    (hy : y ∈ firstOfEach same xs) (h : same x y = true) : x = y := by
  by_contra hne
  have hdiffer : Std.Symm fun x y => same x y = false :=
    ⟨fun x y hxy => Bool.eq_false_iff.mpr fun hyx => Bool.eq_false_iff.mp hxy (hsymm y x hyx)⟩
  exact Bool.eq_false_iff.mp ((pairwise_firstOfEach same xs).forall hx hy hne) h

/-- A member that is kept stands before all others that it is the same as. -/
theorem eq_or_rel_of_mem_firstOfEach {r : α → α → Prop} (hsymm : ∀ x y, same x y = true → same y x = true) (hxs : xs.Pairwise r)
    {x y : α} (hx : x ∈ firstOfEach same xs) (hy : y ∈ xs) (h : same x y = true) : x = y ∨ r x y := by
  obtain ⟨before, after, rfl, hbefore⟩ := mem_firstOfEach_iff.mp hx
  rcases List.mem_append.mp hy with hy | hy
  · exact absurd (hsymm x y h) (Bool.eq_false_iff.mp (hbefore y hy))
  · rcases List.mem_cons.mp hy with rfl | hy
    · exact .inl rfl
    · exact .inr (List.rel_of_pairwise_cons (List.pairwise_append.mp hxs).2.1 hy)

/-- What is kept of a list is kept of what is made of it, when being the same is said of that. -/
theorem map_firstOfEach {β : Type} (f : α → β) (same : β → β → Bool) (xs : List α) :
    (firstOfEach (fun a b => same (f a) (f b)) xs).map f = firstOfEach same (xs.map f) := by
  induction xs with
  | nil => rfl
  | cons x xs ih =>
    rw [firstOfEach, List.map_cons, List.map_cons, firstOfEach, ← ih, List.filter_map]
    rfl

end FirstOfEach

namespace ClassDecl

/-- The declaration without a method. -/
def lacking (m : MethodDecl) (c : ClassDecl) : ClassDecl :=
  { c with methods := c.methods.filter (· ≠ m) }

theorem showsRest_lacking (m : MethodDecl) : ShowsRest (lacking m) :=
  showsRest_methods fun methods => methods.filter (· ≠ m)

end ClassDecl

namespace ClassTable

variable {t u : ClassTable} {className typeName member : String} {m : MethodDecl}

/-- Behind the chain of the superclasses members are searched in the supertypes that are not on it. -/
theorem memberOrder_eq (t : ClassTable) (typeName : String) :
    t.memberOrder typeName = t.lineage typeName ++ (t.supertypes typeName).filter (· ∉ t.lineage typeName) := by
  have hchain : ∀ k, k ∈ Std.TreeSet.ofList (t.lineage typeName) ↔ k ∈ t.lineage typeName := by
    intro k
    rw [Std.TreeSet.mem_ofList, List.contains_iff_mem]
  simp only [memberOrder, hchain]

/-- Some member has the parameter types of a method that is declared in the hierarchy. -/
theorem exists_mem_members {n : MethodDecl} (hn : n ∈ t.declaredMembers typeName member) :
    ∃ k ∈ t.members typeName member, sameTypes k.params n.params = true := by
  unfold members
  refine exists_mem_firstOfEach ?_ ?_ hn
  · exact fun k => sameTypes_refl k.params
  · exact fun _ _ _ => sameTypes_trans

/-- What is declared in a hierarchy, a method apart, is the same in tables that look the same without that method. -/
theorem LooksLike.filter_declaredMembers (h : t.LooksLike (ClassDecl.lacking m) u) (typeName member : String) :
    (u.declaredMembers typeName member).filter (· ≠ m) = (t.declaredMembers typeName member).filter (· ≠ m) := by
  have hhierarchy := h.sameHierarchy (ClassDecl.showsRest_lacking m)
  unfold declaredMembers
  rw [List.filter_flatMap, List.filter_flatMap, hhierarchy.memberOrder, hhierarchy.canonicalName]
  symm
  refine h.flatMap_underlying? (ClassDecl.showsRest_lacking m) ?_ _
  intro c d hcd
  have hmethods : c.methods.filter (· ≠ m) = d.methods.filter (· ≠ m) := congrArg ClassDecl.methods hcd
  have hname : d.name = c.name := by rw [ClassDecl.showsRest_lacking m c d hcd]
  have hoverloads : (c.overloads member).filter (· ≠ m) = (d.overloads member).filter (· ≠ m) := by
    rw [ClassDecl.overloads, List.filter_comm, hmethods, List.filter_comm, ← ClassDecl.overloads]
  rw [hname, List.filter_comm, hoverloads, List.filter_comm]

/-- A method with parameter types that no member of a type has changes the members of the type by itself at most. -/
theorem filter_members_addMethod? (h : t.addMethod? className m = some u)
    (hnew : ∀ n ∈ t.members typeName member, sameTypes n.params m.params = false) :
    (u.members typeName member).filter (· ≠ { m with declaring := className }) = t.members typeName member := by
  have hlooks : t.LooksLike (ClassDecl.lacking { m with declaring := className }) u :=
    looksLike_addMethod? h fun c => by simp [ClassDecl.lacking, List.filter_append]
  -- a declared method that is no member has the parameter types of one, so its types are not those of `m` either
  have hold : ∀ n ∈ t.declaredMembers typeName member, sameTypes m.params n.params = false := by
    intro n hn
    obtain ⟨k, hk, hkn⟩ := exists_mem_members hn
    rw [Bool.eq_false_iff]
    intro hmn
    have hkm := sameTypes_trans hkn (sameTypes_symm hmn)
    rw [hnew k hk] at hkm
    cases hkm
  have hdeclared : (u.declaredMembers typeName member).filter (· ≠ { m with declaring := className }) =
      t.declaredMembers typeName member := by
    rw [hlooks.filter_declaredMembers]
    refine List.filter_eq_self.mpr fun n hn => ?_
    refine decide_eq_true fun heq => ?_
    have hsame := hold n hn
    rw [heq, sameTypes_refl] at hsame
    cases hsame
  rw [members, filter_firstOfEach, hdeclared, members]
  intro x hx y hy hxm hym
  have hy' : y ∈ t.declaredMembers typeName member := by
    rw [← hdeclared]
    exact List.mem_filter.mpr ⟨hy, hym⟩
  have hx' : x = { m with declaring := className } := by simpa using hxm
  rw [hx']
  exact hold y hy'

end ClassTable

end Linkage
