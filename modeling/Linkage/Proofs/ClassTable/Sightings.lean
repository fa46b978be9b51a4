import Linkage.Proofs.ClassTable.Members
import Mathlib.Data.List.Sort
import Mathlib.Data.Prod.Lex

/-!
# Where members are sighted

The search for the members of a name passes through the names of a hierarchy, the chain of the superclasses first and the remaining
supertypes behind it, and through the methods of what each name stands for in declaration order. Every method of the name that it meets is a
sighting (`ClassTable.Sights`), and a declaration that several names stand for is met under each of them. The members are the first sighting
of each list of parameter types, in the order of the search, and nothing else (`members_firstSightings`).
-/

namespace Linkage

/-- A method that a search meets: the number of the name that is searched, and the number of the method in the declaration behind that
name. -/
structure Sighting where
  turn : Nat
  index : Nat
  method : MethodDecl

namespace Sighting

variable {a b c : Sighting}

/-- The place of a sighting in the search: by the name first, then by the method. -/
def place (s : Sighting) : Nat ×ₗ Nat :=
  toLex (s.turn, s.index)

/-- Whether the methods have the same parameter types. -/
def alike (a b : Sighting) : Bool :=
  sameTypes a.method.params b.method.params

/-- A sighting is like itself. -/
theorem alike_refl (s : Sighting) : s.alike s = true :=
  sameTypes_refl s.method.params

/-- Being alike goes both ways. -/
theorem alike_symm (h : a.alike b = true) : b.alike a = true :=
  sameTypes_symm h

/-- Being alike goes on from one sighting to the next. -/
theorem alike_trans (h : a.alike b = true) (h' : b.alike c = true) : a.alike c = true :=
  sameTypes_trans h h'

/-- Places are ordered by the turn of the owner, then by the place in its declaration. -/
theorem place_lt_iff : a.place < b.place ↔ a.turn < b.turn ∨ a.turn = b.turn ∧ a.index < b.index :=
  Prod.Lex.toLex_lt_toLex

/-- A place is a turn and a place in the declaration of its owner. -/
theorem place_eq_iff : a.place = b.place ↔ a.turn = b.turn ∧ a.index = b.index := by
  rw [place, place, EmbeddingLike.apply_eq_iff_eq, Prod.mk.injEq]

end Sighting

namespace ClassTable

variable {t : ClassTable} {typeName member : String} {s : Sighting} {found other : List Sighting}

/-- The search for the members of a name in the hierarchy of a type meets a method of that name. A constructor counts where the type itself
declares it. -/
def Sights (t : ClassTable) (typeName member : String) (s : Sighting) : Prop :=
  ∃ name owner, (t.lineage typeName ++ (t.supertypes typeName).filter (· ∉ t.lineage typeName))[s.turn]? = some name ∧
    t.underlying? name = some owner ∧ owner.methods[s.index]? = some s.method ∧ s.method.name = member ∧
    (s.method.isConstructor = true → owner.name = t.canonicalName typeName)

/-- The first sightings of a search: they stand in the order of the search, no two of them are alike, and for every sighting there is
exactly one that is like it, which comes no later. -/
structure FirstSightings (t : ClassTable) (typeName member : String) (found : List Sighting) : Prop where
  sights : ∀ s ∈ found, t.Sights typeName member s
  sorted : found.Pairwise fun a b => a.place < b.place
  differ : found.Pairwise fun a b => a.alike b = false
  complete : ∀ s, t.Sights typeName member s →
    ∃ first ∈ found, first.alike s = true ∧ first.place ≤ s.place ∧ ∀ a ∈ found, a.alike s = true → a = first

/-! ## The sightings in order -/

/-- The sightings in a declaration, behind a name of this number. -/
def sightingsIn (t : ClassTable) (typeName member : String) (turn : Nat) (owner : ClassDecl) : List Sighting :=
  (owner.methods.zipIdx.filter fun m => m.1.name = member && (!m.1.isConstructor || owner.name = t.canonicalName typeName)).map
    fun m => ⟨turn, m.2, m.1⟩

/-- All sightings of a search. -/
def sightings (t : ClassTable) (typeName member : String) : List Sighting :=
  (t.memberOrder typeName).zipIdx.flatMap fun n => (t.underlying? n.1).toList.flatMap (t.sightingsIn typeName member n.2)

/-- What one owner shows of a member: its methods of that name, but constructors only of the type itself. -/
theorem mem_sightingsIn {turn : Nat} {owner : ClassDecl} : s ∈ t.sightingsIn typeName member turn owner ↔
    s.turn = turn ∧ owner.methods[s.index]? = some s.method ∧ s.method.name = member ∧
      (s.method.isConstructor = true → owner.name = t.canonicalName typeName) := by
  simp only [sightingsIn, List.mem_map, List.mem_filter, List.mem_zipIdx_iff_getElem?, Bool.and_eq_true, Bool.or_eq_true,
    Bool.not_eq_true', decide_eq_true_eq, ← Bool.not_eq_true, ← imp_iff_not_or]
  constructor
  · rintro ⟨⟨m, index⟩, ⟨hm, hname, hconstructor⟩, rfl⟩
    exact ⟨rfl, hm, hname, hconstructor⟩
  · rintro ⟨rfl, hm, hname, hconstructor⟩
    exact ⟨(s.method, s.index), ⟨hm, hname, hconstructor⟩, rfl⟩

/-- The list of sightings holds just what is sighted. -/
theorem mem_sightings : s ∈ t.sightings typeName member ↔ t.Sights typeName member s := by
  simp only [sightings, List.mem_flatMap, Option.mem_toList, mem_sightingsIn, Prod.exists, List.mem_zipIdx_iff_getElem?,
    memberOrder_eq, Sights]
  constructor
  · rintro ⟨name, turn, hname, owner, howner, rfl, hmethod⟩
    exact ⟨name, owner, hname, howner, hmethod⟩
  · rintro ⟨name, owner, hname, howner, hmethod⟩
    exact ⟨name, s.turn, hname, owner, howner, rfl, hmethod⟩

/-- The methods that are sighted are the ones declared in the hierarchy. -/
theorem map_sightings (t : ClassTable) (typeName member : String) :
    (t.sightings typeName member).map (·.method) = t.declaredMembers typeName member := by
  have howner : ∀ turn owner, (t.sightingsIn typeName member turn owner).map (·.method) =
      (owner.overloads member).filter fun m => !m.isConstructor || owner.name = t.canonicalName typeName := by
    intro turn owner
    rw [sightingsIn, List.map_map, ClassDecl.overloads, List.filter_filter]
    conv => rhs; rw [← List.zipIdx_map_fst 0 owner.methods, List.filter_map]
    simp [Function.comp_def, Bool.and_comm]
  simp only [sightings, declaredMembers, List.map_flatMap, howner, List.filterMap_eq_flatMap_toList, List.flatMap_assoc]
  conv => rhs; rw [← List.zipIdx_map_fst 0 (t.memberOrder typeName), List.flatMap_map]

/-- The sightings stand in the order of their places. -/
theorem pairwise_sightings (t : ClassTable) (typeName member : String) :
    (t.sightings typeName member).Pairwise fun a b => a.place < b.place := by
  -- behind one name there is one declaration, and its methods have rising numbers
  have hin : ∀ turn owner, (t.sightingsIn typeName member turn owner).Pairwise fun a b => a.place < b.place := by
    intro turn owner
    refine List.pairwise_map.mpr (((pairwise_zipIdx owner.methods).filter _).imp fun {m n} hmn => ?_)
    exact Sighting.place_lt_iff.mpr (.inr ⟨rfl, hmn⟩)
  refine List.pairwise_flatMap.mpr ⟨fun n _ => ?_, (pairwise_zipIdx _).imp fun {m n} hmn a ha b hb => ?_⟩
  · cases t.underlying? n.1 with
    | none => exact .nil
    | some owner => simpa using hin n.2 owner
  · obtain ⟨owner, -, ha⟩ := List.mem_flatMap.mp ha
    obtain ⟨owner', -, hb⟩ := List.mem_flatMap.mp hb
    refine Sighting.place_lt_iff.mpr (.inl ?_)
    rwa [(mem_sightingsIn.mp ha).1, (mem_sightingsIn.mp hb).1]

/-! ## The first sightings -/

/-- At one place of the search there is one method. -/
theorem Sights.eq_of_place_eq {a b : Sighting} (ha : t.Sights typeName member a) (hb : t.Sights typeName member b)
    (h : a.place = b.place) : a = b := by
  obtain ⟨name, owner, hname, howner, hmethod, -⟩ := ha
  obtain ⟨name', owner', hname', howner', hmethod', -⟩ := hb
  obtain ⟨hturn, hindex⟩ := Sighting.place_eq_iff.mp h
  rw [hturn, hname'] at hname
  obtain rfl := Option.some.inj hname
  obtain rfl := Option.some.inj (howner.symm.trans howner')
  rw [hindex, hmethod'] at hmethod
  cases a
  cases b
  simp_all

/-- What is among the first sightings is among all first sightings of the search. -/
theorem FirstSightings.subset (h : t.FirstSightings typeName member found) (h' : t.FirstSightings typeName member other) :
    found ⊆ other := by
  intro s hs
  have hsights := h.sights s hs
  -- the first one like `s` over there is met no later, and the first one like that over here is `s`
  obtain ⟨b, hb, hbs, hplace, -⟩ := h'.complete s hsights
  obtain ⟨a, -, -, hplace', hfirst⟩ := h.complete b (h'.sights b hb)
  obtain rfl := hfirst s hs (Sighting.alike_symm hbs)
  rwa [hsights.eq_of_place_eq (h'.sights b hb) (le_antisymm hplace' hplace)]

/-- There is one list of first sightings. -/
theorem FirstSightings.unique (h : t.FirstSightings typeName member found) (h' : t.FirstSightings typeName member other) :
    found = other := by
  have hirrefl : Std.Irrefl fun a b : Sighting => a.place < b.place := ⟨fun a => lt_irrefl a.place⟩
  have hantisymm : Std.Antisymm fun a b : Sighting => a.place < b.place := ⟨fun a b hab hba => absurd hba (lt_asymm hab)⟩
  exact List.Subset.antisymm_of_pairwise h.sorted h'.sorted (h.subset h') (h'.subset h)

/-- The sightings that no earlier one is like are the first ones. -/
theorem firstSightings_firstOfEach (t : ClassTable) (typeName member : String) :
    t.FirstSightings typeName member (firstOfEach Sighting.alike (t.sightings typeName member)) := by
  have hsublist := firstOfEach_sublist Sighting.alike (t.sightings typeName member)
  have hsorted := t.pairwise_sightings typeName member
  refine ⟨fun s hs => mem_sightings.mp (hsublist.subset hs), hsorted.sublist hsublist, pairwise_firstOfEach _ _, fun s hs => ?_⟩
  have hmem := mem_sightings.mpr hs
  obtain ⟨first, hfirst, hlike⟩ := exists_mem_firstOfEach Sighting.alike_refl (fun _ _ _ => Sighting.alike_trans) hmem
  have hsymm : ∀ a b : Sighting, a.alike b = true → b.alike a = true := fun _ _ => Sighting.alike_symm
  refine ⟨first, hfirst, hlike, ?_, fun a ha hlike' => ?_⟩
  · rcases eq_or_rel_of_mem_firstOfEach hsymm hsorted hfirst hmem hlike with rfl | hplace
    · exact le_refl _
    · exact le_of_lt hplace
  · exact eq_of_mem_firstOfEach hsymm ha hfirst (Sighting.alike_trans hlike' (Sighting.alike_symm hlike))

/-- The members of a name that a type has are the first sightings of the search, one for each list of parameter types. -/
theorem members_firstSightings (t : ClassTable) (typeName member : String) :
    ∃ found, t.FirstSightings typeName member found ∧ (∀ other, t.FirstSightings typeName member other → other = found) ∧
      t.members typeName member = found.map (·.method) := by
  have hfirst := t.firstSightings_firstOfEach typeName member
  refine ⟨_, hfirst, fun other hother => hother.unique hfirst, ?_⟩
  rw [members, ← map_sightings, ← map_firstOfEach]
  rfl

/-- A class that lists one superclass under two names has its method once. -/
example : ((ClassTable.empty.registerAll
    [{ ClassDecl.ofClass "q/Base" with superclass := none, methods := [{ name := "f", params := [], result := .void }] },
     .ofAlias "p/BaseAlias" "q/Base",
     { ClassDecl.ofClass "p/Twice" with superclass := some "p/BaseAlias", interfaces := ["q/Base"] }]).members
      "p/Twice" "f").length = 1 := by
  decide +kernel

end ClassTable

end Linkage
