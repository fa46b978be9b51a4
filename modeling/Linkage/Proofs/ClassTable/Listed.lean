import Linkage.Accessibility
import Linkage.Proofs.ClassTable.BreadthFirst
import Linkage.Proofs.ClassTable.Resolved

/-!
# Listed supertypes

A declaration lists its superclass and its interfaces by name. A walk up the hierarchy follows the aliases of the interfaces, but takes
the superclass by the name as it is stated, so a type is honoured as a supertype when it is listed as an interface under any name, or as
the superclass under its own name (`honours_of_lists`). A superclass that is listed under an alias only is not
(`not_honours_sampleIndirect`).
-/

namespace Linkage

namespace ClassTable

variable {t : ClassTable} {a : String} {c d : ClassDecl}

/-- A declaration lists another one: as an interface under any name that stands for it, or as the superclass under its own name. -/
def Lists (t : ClassTable) (c d : ClassDecl) : Prop :=
  c.superclass = some d.name ∨ ∃ n ∈ c.interfaces, t.underlying? n = some d

/-- The second declaration is honoured as a supertype of the first: it is among the supertypes, its references accept the values of the
first, and its protected members may be used there. -/
structure Honours (t : ClassTable) (c d : ClassDecl) : Prop where
  mem_supertypes : d.name ∈ t.supertypes c.name
  isSubtype : t.isSubtype c.type d.type = true
  isAssignable : t.isAssignable c.type d.type = true
  isAccessible : ∀ m : MethodDecl, m.declaring = d.name → m.visibility = .subclasses → Linkage.isAccessible t c.name m = true

/-- What is among the supertypes is honoured in every respect. -/
theorem Honours.of_mem_supertypes (hd : t.underlying? d.name = some d) (h : d.name ∈ t.supertypes c.name) : t.Honours c d := by
  have hname := canonicalName_of_underlying? hd
  have hsubtype : t.isSubtype c.type d.type = true := by
    obtain ⟨k, hk⟩ := exists_type_eq_named c
    obtain ⟨l, hl⟩ := exists_type_eq_named d
    rw [hk, hl, isSubtype_named, hname, decide_eq_true h, Bool.or_true]
  refine ⟨h, hsubtype, ?_, ?_⟩
  · unfold ClassTable.isAssignable
    rw [hsubtype, Bool.true_or]
  · intro m hm hvisibility
    simp [Linkage.isAccessible, hvisibility, hm, hname, h]

/-- One step above a declaration stands the name of just what it lists. -/
theorem step_iff_lists (hc : t.underlying? a = some c) (hd : t.underlying? d.name = some d) : t.Step a d.name ↔ t.Lists c d := by
  have hinterface : ∀ n, t.canonicalName n = d.name ↔ t.underlying? n = some d := by
    intro n
    refine ⟨fun hn => ?_, canonicalName_of_underlying?⟩
    rw [← underlying?_canonicalName, hn, hd]
  simp only [step_iff, hc, Option.some.injEq, exists_eq_left', List.mem_append, Option.mem_toList, List.mem_map, hinterface, Lists]

/-- What a declaration lists is visited from there, unless so many names are listed that the walk is cut off among them. -/
theorem mem_supertypes_of_lists (hc : t.underlying? c.name = some c) (hd : t.underlying? d.name = some d)
    (hfew : (c.superclass.toList ++ c.interfaces).length < hierarchyLimit) (h : t.Lists c d) : d.name ∈ t.supertypes c.name := by
  have hstep : d.name ∈ t.parents c.name := (step_iff_lists hc hd).mpr h
  have hlength : (t.parents c.name).length ≤ hierarchyLimit - 1 := by
    simp only [parents, hc, List.length_append, List.length_map] at hfew ⊢
    omega
  rw [supertypes_eq_cons, canonicalName_of_underlying? hc, List.mem_cons]
  rcases mem_visit_of_mem_queue hlength hstep with hseen | hvisited
  · rw [mem_insert_seen] at hseen
    exact .inl (hseen.resolve_right Std.TreeSet.not_mem_emptyc).symm
  · exact .inr hvisited

/-- A type is reached from a registered one when it is the same type, or when something that is reached lists it. -/
theorem reaches_iff_eq_or_lists (hd : t.underlying? d.name = some d) :
    t.Reaches a d.name ↔ a = d.name ∨ ∃ b e, t.Reaches a b ∧ t.underlying? b = some e ∧ t.Lists e d := by
  rw [Reaches, Relation.ReflTransGen.cases_tail_iff, eq_comm]
  refine or_congr_right ⟨?_, ?_⟩
  · rintro ⟨b, hb, hstep⟩
    obtain ⟨e, he, -⟩ := step_iff.mp hstep
    exact ⟨b, e, hb, he, (step_iff_lists he hd).mp hstep⟩
  · rintro ⟨b, e, hb, he, hlists⟩
    exact ⟨b, hb, (step_iff_lists he hd).mpr hlists⟩

/-- A registered type that a class or interface lists as an interface, under any name, or as the superclass, under its own name, is honoured
as a supertype of it. Where the walk is not cut off nothing else is, but what is listed so further up. -/
theorem honours_of_lists (hc : t.get? c.name = some c) (hcAlias : c.aliasOf = none) (hd : t.get? d.name = some d)
    (hdAlias : d.aliasOf = none) :
    ((c.superclass.toList ++ c.interfaces).length < hierarchyLimit → t.Lists c d → t.Honours c d) ∧
    (t.Whole c.name → (t.Honours c d ↔
      c = d ∨ ∃ b e, t.Reaches c.name b ∧ t.underlying? b = some e ∧ t.Lists e d)) := by
  have hc := underlying?_of_get? hc hcAlias
  have hd := underlying?_of_get? hd hdAlias
  refine ⟨fun hfew hlists => .of_mem_supertypes hd (mem_supertypes_of_lists hc hd hfew hlists), fun hwhole => ?_⟩
  have hsame : c.name = d.name ↔ c = d := by
    refine ⟨fun hname => ?_, congrArg ClassDecl.name⟩
    rw [hname, hd] at hc
    exact (Option.some.inj hc).symm
  rw [← hsame, ← reaches_iff_eq_or_lists hd]
  have hmem := mem_supertypes_iff hwhole (b := d.name)
  rw [canonicalName_of_underlying? hc] at hmem
  exact ⟨fun h => hmem.mp h.mem_supertypes, fun h => .of_mem_supertypes hd (hmem.mpr h)⟩

/-! ## Samples -/

/-- A class with a protected method. -/
def sampleBase : ClassDecl :=
  (ClassDecl.ofClass "q/Base").addMethods [{ name := "f", params := [], result := .void, access := .accProtected }]

/-- Lists the class under its own name, and an interface under an alias. -/
def sampleDirect : ClassDecl :=
  { ClassDecl.ofClass "p/Direct" with superclass := some "q/Base", interfaces := ["p/ShapeAlias"] }

/-- Lists the class under an alias. -/
def sampleIndirect : ClassDecl :=
  { ClassDecl.ofClass "p/Indirect" with superclass := some "p/BaseAlias" }

def sampleListed : ClassTable :=
  .registerAll .empty [sampleBase, .ofAlias "p/BaseAlias" "q/Base", .ofInterface "q/Shape", .ofAlias "p/ShapeAlias" "q/Shape",
    sampleDirect, sampleIndirect]

/-- The superclass that is listed under its own name is honoured, and so is the interface that is listed under an alias. -/
theorem honours_sampleDirect : sampleListed.Lists sampleDirect sampleBase ∧ sampleListed.Lists sampleDirect (.ofInterface "q/Shape") ∧
    sampleListed.Whole sampleDirect.name ∧ sampleListed.Honours sampleDirect sampleBase ∧
    sampleListed.Honours sampleDirect (.ofInterface "q/Shape") := by
  have hdirect : sampleListed.get? sampleDirect.name = some sampleDirect := by decide +kernel
  have hclass : sampleListed.Lists sampleDirect sampleBase := .inl rfl
  have hinterface : sampleListed.Lists sampleDirect (.ofInterface "q/Shape") :=
    .inr ⟨"p/ShapeAlias", List.mem_cons_self, by decide +kernel⟩
  have hwhole : sampleListed.Whole sampleDirect.name := by
    unfold Whole
    decide +kernel
  refine ⟨hclass, hinterface, hwhole, ?_, ?_⟩
  · exact (honours_of_lists hdirect rfl (by decide +kernel) rfl).1 (by decide) hclass
  · refine (honours_of_lists hdirect rfl (by decide +kernel) rfl).2 hwhole |>.mpr (.inr ⟨_, _, .refl, ?_, hinterface⟩)
    exact underlying?_of_get? hdirect rfl

/-- The superclass that is listed under an alias is no supertype: its references do not accept the values of the class, and the class may
not use its protected method. -/
theorem not_honours_sampleIndirect : sampleListed.get? "p/Indirect" = some sampleIndirect ∧ sampleIndirect.aliasOf = none ∧
    sampleIndirect.superclass = some "p/BaseAlias" ∧ sampleListed.underlying? "p/BaseAlias" = some sampleBase ∧
    "q/Base" ∉ sampleListed.supertypes "p/Indirect" ∧
    sampleListed.isSubtype (.ofClass "p/Indirect") (.ofClass "q/Base") = false ∧
    sampleListed.isAssignable (.ofClass "p/Indirect") (.ofClass "q/Base") = false ∧
    ∃ m ∈ sampleBase.methods, m.visibility = .subclasses ∧ isAccessible sampleListed "p/Indirect" m = false := by
  decide +kernel

end ClassTable

end Linkage
