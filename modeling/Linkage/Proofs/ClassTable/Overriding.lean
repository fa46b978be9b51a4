import Linkage.Proofs.ClassTable.Built
import Linkage.Proofs.ClassTable.Members
import Linkage.Proofs.ClassTable.Search
import Linkage.Proofs.FunctionalInterface.Remaining

/-!
# Overridden methods among the members

Of several methods of one signature the first in search order is a member: first along the chain of the superclasses, then breadth first. So
no member is overridden by a type of the chain, nor, unless it is declared there itself, by a type that is visited earlier or is nearer
(`not_overrides_of_mem_members`). That is not every type below the one that declares it: an interface that lists another one ahead of an
interface that extends it has the overridden method (`overrides_sampleUpperFirst`).
-/

namespace Linkage

/-! ## Lists taken apart at a member -/

/-- A member of two lists in a row stands in the first, or behind it in the second. -/
theorem append_eq_append_cons {α : Type} {xs ys before after : List α} {x : α} (h : xs ++ ys = before ++ x :: after) :
    (∃ rest, xs = before ++ x :: rest) ∨ ∃ between, before = xs ++ between ∧ ys = between ++ x :: after := by
  rcases List.append_eq_append_iff.mp h with ⟨between, hbefore, hys⟩ | ⟨rest, hxs, hafter⟩
  · exact .inr ⟨between, hbefore, hys⟩
  · rcases List.cons_eq_append_iff.mp hafter with ⟨rfl, hys⟩ | ⟨rest, rfl, -⟩
    · exact .inr ⟨[], by rw [hxs, List.append_nil, List.append_nil], hys⟩
    · exact .inl ⟨rest, hxs⟩

/-- A member of a concatenation stands in one of its parts, and everything in the parts before that stands before the member. -/
theorem exists_part_of_flatMap_eq {α β : Type} {f : α → List β} {parts : List α} {x : β} {before after : List β}
    (h : parts.flatMap f = before ++ x :: after) :
    ∃ earlier part later, parts = earlier ++ part :: later ∧ x ∈ f part ∧ ∀ p ∈ earlier, ∀ y ∈ f p, y ∈ before := by
  induction parts generalizing before with
  | nil => simp at h
  | cons p parts ih =>
    rw [List.flatMap_cons] at h
    rcases append_eq_append_cons h with ⟨rest, hp⟩ | ⟨between, rfl, hparts⟩
    · exact ⟨[], p, parts, rfl, by simp [hp], nofun⟩
    · obtain ⟨earlier, part, later, rfl, hx, hearlier⟩ := ih hparts
      refine ⟨p :: earlier, part, later, rfl, hx, fun q hq y hy => ?_⟩
      rcases List.mem_cons.mp hq with rfl | hq
      · exact List.mem_append_left _ hy
      · exact List.mem_append_right _ (hearlier q hq y hy)

/-- What has its first place in front of a member stands before it. -/
theorem mem_of_idxOf_lt {before after : List String} {n k : String}
    (h : (before ++ n :: after).idxOf k < (before ++ n :: after).idxOf n) : k ∈ before := by
  by_contra hmem
  rw [List.idxOf_append_of_notMem hmem] at h
  have hn : (before ++ n :: after).idxOf n ≤ before.length := by
    by_cases hagain : n ∈ before
    · rw [List.idxOf_append_of_mem hagain]
      exact Nat.le_of_lt (List.idxOf_lt_length_of_mem hagain)
    · rw [List.idxOf_append_of_notMem hagain, List.idxOf_cons_self, Nat.add_zero]
  omega

namespace ClassTable

open FunctionalInterface

variable {t : ClassTable} {typeName member n : String} {r : MethodDecl} {before after : List String}

/-- The first declaration overrides a method of the second: it stands strictly below, and declares a method of that signature. -/
structure Overrides (t : ClassTable) (lower upper : ClassDecl) (m : MethodDecl) : Prop where
  strict : StrictSubtype t lower upper
  declares : ∃ k ∈ lower.methods, k.isConstructor = false ∧ k.SameSignature m

/-- A declaration precedes a name in the hierarchy of a type: it is on the chain of the superclasses, or the name is not and is visited
later or farther away. -/
def Precedes (t : ClassTable) (typeName : String) (decl : ClassDecl) (n : String) : Prop :=
  ∃ k, t.underlying? k = some decl ∧ (k ∈ t.lineage typeName ∨
    n ∉ t.lineage typeName ∧ ((t.supertypes typeName).idxOf k < (t.supertypes typeName).idxOf n ∨
      t.Reaches (t.canonicalName typeName) k ∧ ¬ t.NoFarther (t.canonicalName typeName) n k))

/-! ## The order of the search -/

/-- Every superclass on the chain stands above the names before it. -/
theorem pairwise_below_lineage (t : ClassTable) (typeName : String) : (t.lineage typeName).Pairwise t.Below := by
  have htrans : IsTrans String t.Below := ⟨fun _ _ _ => Relation.TransGen.trans⟩
  refine List.isChain_iff_pairwise.mp (isChain_climb.imp fun a b hab => ?_)
  exact .single (step_of_superclass? hab)

/-- A name in search order stands on the chain of the superclasses, or behind the whole chain and all supertypes visited earlier. -/
theorem memberOrder_cases (h : t.memberOrder typeName = before ++ n :: after) :
    (∃ rest, t.lineage typeName = before ++ n :: rest) ∨
      n ∉ t.lineage typeName ∧ (∀ k ∈ t.lineage typeName, k ∈ before) ∧
        ∃ nearer farther, t.supertypes typeName = nearer ++ n :: farther ∧ ∀ k ∈ nearer, k ∈ before := by
  rw [memberOrder_eq] at h
  refine (append_eq_append_cons h).imp_right ?_
  rintro ⟨between, rfl, hfilter⟩
  obtain ⟨first, second, hsplit, rfl, hsecond⟩ := List.filter_eq_append_iff.mp hfilter
  obtain ⟨passed, farther, rfl, hpassed, hn, -⟩ := List.filter_eq_cons_iff.mp hsecond
  refine ⟨of_decide_eq_true hn, fun k hk => List.mem_append_left _ hk, first ++ passed, farther, ?_, ?_⟩
  · rw [hsplit, List.append_assoc]
  · -- what was visited earlier stands on the chain or was searched behind it
    intro k hk
    by_cases hmem : k ∈ t.lineage typeName
    · exact List.mem_append_left _ hmem
    · rcases List.mem_append.mp hk with hk | hk
      · exact List.mem_append_right _ (List.mem_filter.mpr ⟨hk, decide_eq_true hmem⟩)
      · exact absurd (decide_eq_true hmem) (hpassed k hk)

/-- A member is declared by what a name in search order stands for, and nothing that is searched earlier declares its signature. -/
theorem exists_owner_of_mem_members (hr : r ∈ t.members typeName member) :
    ∃ before n after owner, t.memberOrder typeName = before ++ n :: after ∧ t.underlying? n = some owner ∧ r ∈ owner.methods ∧
      ∀ k ∈ before, ∀ decl, t.underlying? k = some decl → ∀ m ∈ decl.methods, m.isConstructor = false → ¬ m.SameSignature r := by
  obtain ⟨before, after, hdeclared, hfirst⟩ := mem_firstOfEach_iff.mp hr
  obtain ⟨earlier, owner, later, howners, howner, hearlier⟩ := exists_part_of_flatMap_eq hdeclared
  obtain ⟨first, second, hsplit, rfl, hsecond⟩ := List.filterMap_eq_append_iff.mp howners
  obtain ⟨passed, n, rest, rfl, hpassed, hn, -⟩ := List.filterMap_eq_cons_iff.mp hsecond
  have hr' := (List.mem_filter.mp (List.mem_filter.mp howner).1)
  refine ⟨first ++ passed, n, rest, owner, by rw [hsplit, List.append_assoc], hn, hr'.1, ?_⟩
  intro k hk decl hdecl m hm hconstructor hsame
  rcases List.mem_append.mp hk with hk | hk
  · have hname : m.name = member := hsame.1.trans (of_decide_eq_true hr'.2)
    have hmem : m ∈ decl.overloads member := List.mem_filter.mpr ⟨hm, decide_eq_true hname⟩
    have hbefore := hearlier decl (List.mem_filterMap.mpr ⟨k, hk, hdecl⟩) m (List.mem_filter.mpr ⟨hmem, by simp [hconstructor]⟩)
    have hdiffer := hfirst m hbefore
    rw [sameTypes_iff_forall₂.mpr hsame.2] at hdiffer
    cases hdiffer
  · rw [hpassed k hk] at hdecl
    cases hdecl

/-! ## Members and overriding -/

/-- In an acyclic hierarchy nothing that is reached from a declaration is a strict subtype of it. -/
theorem not_strictSubtype_of_below (hacyclic : t.Acyclic) {k : String} {upper lower : ClassDecl} (hn : t.underlying? n = some upper)
    (hk : t.underlying? k = some lower) (hnk : t.Below n k) : ¬ StrictSubtype t lower upper := by
  have hupper : StrictSubtype t upper lower := ⟨k, hnk.congr_left (hn.trans (underlying?_of_underlying? hn).symm), hk⟩
  exact fun hlower => hlower.asymm hacyclic hupper

/-- What is visited behind a name, or not at all, is no nearer than it. -/
theorem noFarther_of_supertypes {nearer farther : List String} (h : t.supertypes typeName = nearer ++ n :: farther) {k : String}
    (hk : t.Reaches (t.canonicalName typeName) k) (hnearer : k ∉ nearer) : t.NoFarther (t.canonicalName typeName) n k := by
  obtain ⟨order, hbreadth, htake⟩ := t.exists_breadthFirst typeName
  have hmem := (hbreadth.mem_iff k).mpr hk
  have hpairwise := hbreadth.noFarther
  rw [← List.take_append_drop hierarchyLimit order, ← htake, h, List.append_assoc, List.cons_append] at hmem hpairwise
  rcases List.mem_cons.mp ((List.mem_append.mp hmem).resolve_left hnearer) with rfl | hmem
  · exact .refl t _ k
  · exact List.rel_of_pairwise_cons (List.pairwise_append.mp hpairwise).2.1 hmem

/-- No member is overridden by a type that precedes the one that declares it. -/
theorem not_overrides_of_mem_members (hacyclic : t.Acyclic) (hr : r ∈ t.members typeName member) :
    ∃ n owner, n ∈ t.memberOrder typeName ∧ t.underlying? n = some owner ∧ r ∈ owner.methods ∧ (t.Built → r.declaring = owner.name) ∧
      ∀ decl, t.Precedes typeName decl n → ¬ t.Overrides decl owner r := by
  obtain ⟨before, n, after, owner, horder, hn, howner, hfirst⟩ := exists_owner_of_mem_members hr
  refine ⟨n, owner, by simp [horder], hn, howner, fun ht => ?_, ?_⟩
  · exact ht.declaring_eq (aliasOf_of_underlying? hn).2 r howner
  rintro decl ⟨k, hdecl, hplace⟩ hoverrides
  have hlate : k ∉ before := by
    obtain ⟨m, hm, hconstructor, hsame⟩ := hoverrides.declares
    exact fun hk => hfirst k hk decl hdecl m hm hconstructor hsame
  rcases memberOrder_cases horder with ⟨rest, hlineage⟩ | ⟨hbehind, hchain, nearer, farther, hsupertypes, hnearer⟩
  · -- the method is declared on the chain, and what follows there stands above
    have hpairwise := t.pairwise_below_lineage typeName
    rw [hlineage] at hplace hpairwise
    rcases hplace with hk | ⟨hbehind, -⟩
    · rcases List.mem_cons.mp ((List.mem_append.mp hk).resolve_left hlate) with rfl | hk
      · obtain rfl := Option.some.inj (hn.symm.trans hdecl)
        exact hoverrides.strict.asymm hacyclic hoverrides.strict
      · have hbelow := List.rel_of_pairwise_cons (List.pairwise_append.mp hpairwise).2.1 hk
        exact not_strictSubtype_of_below hacyclic hn hdecl hbelow hoverrides.strict
    · simp at hbehind
  · rcases hplace with hk | ⟨-, hvisited | ⟨hreaches, hfarther⟩⟩
    · exact hlate (hchain k hk)
    · rw [hsupertypes] at hvisited
      exact hlate (hnearer k (mem_of_idxOf_lt hvisited))
    · exact hfarther (noFarther_of_supertypes hsupertypes hreaches fun hk => hlate (hnearer k hk))

/-- Where the interface that has the body is listed first, its method is the member, and no type that precedes it overrides it. -/
theorem not_overrides_sampleLowerFirst : sampleHierarchy.Acyclic ∧ sampleHierarchy.Precedes "p/LowerFirst" sampleLower "p/Upper" ∧
    ∃ r, sampleHierarchy.members "p/LowerFirst" "m" = [r] ∧ ∃ n owner, sampleHierarchy.underlying? n = some owner ∧
      r ∈ owner.methods ∧ r.declaring = owner.name ∧
      ∀ decl, sampleHierarchy.Precedes "p/LowerFirst" decl n → ¬ sampleHierarchy.Overrides decl owner r := by
  have hprecedes : sampleHierarchy.Precedes "p/LowerFirst" sampleLower "p/Upper" :=
    ⟨"p/Lower", by decide +kernel, .inr ⟨by decide +kernel, .inl (by decide +kernel)⟩⟩
  have hbuilt : sampleHierarchy.Built :=
    ((((Built.empty.register rfl [sampleAbstract "m"]).register rfl [{ name := "m", params := [], result := .void }]).register rfl
      [sampleAbstract "run"]).register rfl []).register rfl []
  obtain ⟨r, hmembers⟩ : ∃ r, sampleHierarchy.members "p/LowerFirst" "m" = [r] :=
    List.length_eq_one_iff.mp (by decide +kernel)
  have hr : r ∈ sampleHierarchy.members "p/LowerFirst" "m" := by
    rw [hmembers]
    exact List.mem_cons_self
  obtain ⟨n, owner, -, hn, howner, hdeclaring, hfirst⟩ := not_overrides_of_mem_members acyclic_sampleHierarchy hr
  exact ⟨acyclic_sampleHierarchy, hprecedes, r, hmembers, n, owner, hn, howner, hdeclaring hbuilt, hfirst⟩

/-- Where it is listed behind the interface that it extends, the overridden method is the member. -/
theorem overrides_sampleUpperFirst : sampleHierarchy.Acyclic ∧ sampleHierarchy.Reaches "p/UpperFirst" "p/Lower" ∧
    sampleHierarchy.underlying? "p/Lower" = some sampleLower ∧ sampleHierarchy.underlying? "p/Upper" = some sampleUpper ∧
    sampleHierarchy.members "p/UpperFirst" "m" = sampleUpper.methods ∧
    ∀ r ∈ sampleUpper.methods, sampleHierarchy.Overrides sampleLower sampleUpper r := by
  refine ⟨acyclic_sampleHierarchy, .single ?_, by decide +kernel, by decide +kernel, by decide +kernel, fun r hr => ?_⟩
  · unfold Step
    decide +kernel
  · have hdeclares : ∀ r ∈ sampleUpper.methods, ∃ k ∈ sampleLower.methods, k.isConstructor = false ∧
        (k.name = r.name && sameTypes k.params r.params) = true := by
      decide
    obtain ⟨k, hk, hconstructor, hsame⟩ := hdeclares r hr
    exact ⟨strictSubtype_sampleLower, k, hk, hconstructor, MethodDecl.sameSignature_iff.mp hsame⟩

end ClassTable

end Linkage
