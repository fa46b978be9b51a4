import Linkage.FunctionalInterface
import Linkage.Proofs.ClassTable.BreadthFirst
import Linkage.Proofs.ClassTable.Members
import Linkage.Proofs.Declaration
import Linkage.Proofs.Resolution.Rule

/-!
# The methods that an interface leaves to implement

An abstract method of an interface remains to be implemented unless a more specific interface has a body for it (`Remains`). The search
settles each signature at its first declaration in the breadth-first order of the interfaces. That agrees with the rule where of two
declarations, one with and one without a body, the more specific one is visited first (`SpecificFirst`), and not otherwise: an interface
that lists a supertype of another listed one ahead of that one is taken to be functional although its method has a body.
-/

namespace Linkage

namespace MethodDecl

/-- An instance method, and no constructor. -/
def IsInstance (m : MethodDecl) : Prop :=
  m.isStatic = false ∧ m.isConstructor = false

end MethodDecl

namespace FunctionalInterface

/-- An interface among what a name stands for and its supertypes. -/
def Inherits (classes : ClassTable) (name : String) (owner : ClassDecl) : Prop :=
  owner.isInterface = true ∧ ∃ n, classes.Reaches name n ∧ classes.underlying? n = some owner

/-- The first declaration is a strict subtype of the second. -/
def StrictSubtype (classes : ClassTable) (lower upper : ClassDecl) : Prop :=
  ∃ n, classes.Below lower.name n ∧ classes.underlying? n = some upper

/-- An interface of the hierarchy leaves a method to implement: it declares the method abstract, the root class has no such public
method, and no interface of the hierarchy that is more specific has a body for the signature. -/
structure RemainsIn (classes : ClassTable) (name : String) (owner : ClassDecl) (m : MethodDecl) : Prop where
  inherited : Inherits classes name owner
  declared : m ∈ owner.methods
  isInstance : m.IsInstance
  isAbstract : m.isAbstract = true
  notObject : WellKnown.isObjectMethod m.name m.descriptor = false
  noBody : ∀ lower n, Inherits classes name lower → StrictSubtype classes lower owner → n ∈ lower.methods → n.IsInstance →
    n.SameSignature m → n.isAbstract = true

/-- A method that some interface of the hierarchy leaves to implement. -/
def Remains (classes : ClassTable) (name : String) (m : MethodDecl) : Prop :=
  ∃ owner, RemainsIn classes name owner m

/-- The instance methods that the interfaces of a hierarchy declare, each with its interface, in the order of the walk. -/
def declarations (classes : ClassTable) (name : String) : List (ClassDecl × MethodDecl) :=
  ((classes.supertypes name).filterMap classes.underlying?).flatMap fun decl =>
    if decl.isInterface then (decl.methods.filter fun m => !m.isStatic && !m.isConstructor).map fun m => (decl, m) else []

/-- Of two declarations of one signature both or neither are of a public method of the root class; and when one has a body and the other
has none, the one that is visited first is the more specific. -/
def SpecificFirst (classes : ClassTable) (name : String) : Prop :=
  (declarations classes name).Pairwise fun first second => first.2.SameSignature second.2 →
    WellKnown.isObjectMethod first.2.name first.2.descriptor = WellKnown.isObjectMethod second.2.name second.2.descriptor ∧
      (first.2.isAbstract ≠ second.2.isAbstract → StrictSubtype classes first.1 second.1)

variable {classes : ClassTable} {name : String} {owner : ClassDecl} {m n : MethodDecl}

theorem map_declarations (classes : ClassTable) (name : String) :
    (declarations classes name).map Prod.snd = declaredMethods classes name := by
  rw [declarations, declaredMethods, List.map_flatMap]
  congr 1
  funext decl
  split <;> simp [Function.comp_def]

/-- The declarations of a hierarchy are those of its interfaces. -/
theorem mem_declarations_iff (hname : classes.canonicalName name = name) (hwhole : classes.Whole name) :
    (owner, m) ∈ declarations classes name ↔ Inherits classes name owner ∧ m ∈ owner.methods ∧ m.IsInstance := by
  simp only [declarations, List.mem_flatMap, List.mem_filterMap, ClassTable.mem_supertypes_iff hwhole, hname]
  constructor
  · rintro ⟨decl, ⟨n, hn, hdecl⟩, hm⟩
    split at hm
    · rename_i hinterface
      obtain ⟨m', hm', heq⟩ := List.mem_map.mp hm
      cases heq
      obtain ⟨hm', hinstance⟩ := List.mem_filter.mp hm'
      rw [Bool.and_eq_true, Bool.not_eq_true', Bool.not_eq_true'] at hinstance
      exact ⟨⟨hinterface, n, hn, hdecl⟩, hm', hinstance⟩
    · cases hm
  · rintro ⟨⟨hinterface, n, hn, hdecl⟩, hm, hstatic, hconstructor⟩
    refine ⟨owner, ⟨n, hn, hdecl⟩, ?_⟩
    rw [if_pos hinterface]
    exact List.mem_map.mpr ⟨m, List.mem_filter.mpr ⟨hm, by rw [hstatic, hconstructor]; rfl⟩, rfl⟩

/-- The methods that the search leaves abstract are those whose first declaration is abstract. -/
theorem mem_abstractMethods_iff : m ∈ abstractMethods classes name ↔ ∃ owner before after,
    declarations classes name = before ++ (owner, m) :: after ∧ (∀ x ∈ before, ¬ x.2.SameSignature m) ∧ m.isAbstract = true ∧
      WellKnown.isObjectMethod m.name m.descriptor = false := by
  rw [abstractMethods, List.mem_filter, mem_firstOfEach_iff, ← map_declarations, Bool.and_eq_true, Bool.not_eq_true']
  constructor
  · rintro ⟨⟨before, after, hsplit, hbefore⟩, habstract, hobject⟩
    obtain ⟨before', rest, hdeclarations, rfl, hrest⟩ := List.map_eq_append_iff.mp hsplit
    obtain ⟨⟨owner, m'⟩, after', rfl, hm', -⟩ := List.map_eq_cons_iff.mp hrest
    cases hm'
    refine ⟨owner, before', after', hdeclarations, fun x hx hsame => ?_, habstract, hobject⟩
    have hnew := hbefore x.2 (List.mem_map_of_mem hx)
    rw [MethodDecl.sameSignature_iff.mpr hsame] at hnew
    cases hnew
  · rintro ⟨owner, before, after, hsplit, hbefore, habstract, hobject⟩
    refine ⟨⟨before.map Prod.snd, after.map Prod.snd, ?_, ?_⟩, habstract, hobject⟩
    · rw [hsplit, List.map_append, List.map_cons]
    · intro y hy
      obtain ⟨x, hx, rfl⟩ := List.mem_map.mp hy
      rw [Bool.eq_false_iff, ne_eq, MethodDecl.sameSignature_iff]
      exact hbefore x hx

/-- In an acyclic hierarchy no two declarations are strict subtypes of each other. -/
theorem StrictSubtype.asymm (hacyclic : classes.Acyclic) {a b : ClassDecl} (hab : StrictSubtype classes a b)
    (hba : StrictSubtype classes b a) : False := by
  obtain ⟨n, han, hn⟩ := hab
  obtain ⟨k, hbk, hk⟩ := hba
  have hnk : classes.Below n k :=
    hbk.congr_left ((ClassTable.underlying?_of_underlying? hn).trans hn.symm)
  have hkn : classes.Below k n :=
    han.congr_left ((ClassTable.underlying?_of_underlying? hk).trans hk.symm)
  exact hacyclic n (hnk.trans hkn)

/-- What the search leaves abstract remains. -/
theorem remains_of_mem_abstractMethods (hname : classes.canonicalName name = name) (hacyclic : classes.Acyclic)
    (hwhole : classes.Whole name) (hfirst : SpecificFirst classes name) (h : m ∈ abstractMethods classes name) :
    Remains classes name m := by
  obtain ⟨owner, before, after, hsplit, hbefore, habstract, hobject⟩ := mem_abstractMethods_iff.mp h
  have hmem : (owner, m) ∈ declarations classes name := by simp [hsplit]
  obtain ⟨hinherits, hdeclared, hinstance⟩ := (mem_declarations_iff hname hwhole).mp hmem
  refine ⟨owner, hinherits, hdeclared, hinstance, habstract, hobject, ?_⟩
  intro lower n hlower hstrict hn hninstance hsame
  by_contra hbody
  have hnmem := (mem_declarations_iff hname hwhole).mpr ⟨hlower, hn, hninstance⟩
  rw [hsplit] at hnmem
  rcases List.mem_append.mp hnmem with hnmem | hnmem
  · exact hbefore _ hnmem hsame
  · rcases List.mem_cons.mp hnmem with heq | hnmem
    · cases heq
      exact hbody habstract
    · rw [SpecificFirst, hsplit] at hfirst
      have hpair := (List.pairwise_cons.mp (List.pairwise_append.mp hfirst).2.1).1 _ hnmem hsame.symm
      exact StrictSubtype.asymm hacyclic hstrict (hpair.2 (by rw [habstract]; exact fun heq => hbody heq.symm))

/-- For every method that remains the search leaves one of its signature abstract. -/
theorem mem_abstractMethods_of_remains (hname : classes.canonicalName name = name) (hwhole : classes.Whole name)
    (hfirst : SpecificFirst classes name) (h : Remains classes name n) :
    ∃ m ∈ abstractMethods classes name, m.SameSignature n := by
  obtain ⟨owner, hinherits, hdeclared, hinstance, habstract, hobject, hnoBody⟩ := h
  have hmem := (mem_declarations_iff hname hwhole).mpr ⟨hinherits, hdeclared, hinstance⟩
  obtain ⟨⟨upper, m⟩, hfound⟩ : ∃ x, (declarations classes name).find?
      (fun x => decide (x.2.name = n.name) && sameTypes x.2.params n.params) = some x :=
    Option.isSome_iff_exists.mp (List.find?_isSome.mpr ⟨_, hmem, MethodDecl.sameSignature_iff.mpr (.refl n)⟩)
  obtain ⟨hsame, before, after, hsplit, hbefore⟩ := List.find?_eq_some_iff_append.mp hfound
  have hsame : m.SameSignature n := MethodDecl.sameSignature_iff.mp hsame
  refine ⟨m, mem_abstractMethods_iff.mpr ⟨upper, before, after, hsplit, ?_, ?_⟩, hsame⟩
  · intro x hx hx'
    have := hbefore x hx
    rw [MethodDecl.sameSignature_iff.mpr (hx'.trans hsame)] at this
    cases this
  · obtain ⟨hupper, hm, hminstance⟩ :=
      (mem_declarations_iff hname hwhole).mp (show (upper, m) ∈ declarations classes name by simp [hsplit])
    rw [hsplit] at hmem
    rcases List.mem_append.mp hmem with hmem | hmem
    · have := hbefore _ hmem
      rw [MethodDecl.sameSignature_iff.mpr (.refl n)] at this
      cases this
    · rcases List.mem_cons.mp hmem with heq | hmem
      · cases heq
        exact ⟨habstract, hobject⟩
      · rw [SpecificFirst, hsplit] at hfirst
        obtain ⟨hagree, hspecific⟩ := (List.pairwise_cons.mp (List.pairwise_append.mp hfirst).2.1).1 _ hmem hsame
        refine ⟨?_, hagree.trans hobject⟩
        by_contra hbody
        have hstrict := hspecific (by rw [habstract]; exact hbody)
        exact hbody (hnoBody upper m hupper hstrict hm hminstance hsame)

/-- The methods that the search leaves abstract differ in signature. -/
theorem pairwise_abstractMethods (classes : ClassTable) (name : String) :
    (abstractMethods classes name).Pairwise fun m n => ¬ m.SameSignature n := by
  rw [abstractMethods]
  refine List.Pairwise.filter _ ((pairwise_firstOfEach _ _).imp ?_)
  intro m n h hsame
  rw [MethodDecl.sameSignature_iff.mpr hsame] at h
  cases h

/-- One method is left abstract exactly when the methods that remain have one signature. -/
theorem exists_abstractMethods_eq_singleton_iff (hname : classes.canonicalName name = name) (hacyclic : classes.Acyclic)
    (hwhole : classes.Whole name) (hfirst : SpecificFirst classes name) :
    (∃ m, abstractMethods classes name = [m]) ↔
      ∃ m, Remains classes name m ∧ ∀ n, Remains classes name n → m.SameSignature n := by
  constructor
  · rintro ⟨m, hm⟩
    refine ⟨m, remains_of_mem_abstractMethods hname hacyclic hwhole hfirst (by simp [hm]), ?_⟩
    intro n hn
    obtain ⟨k, hk, hsame⟩ := mem_abstractMethods_of_remains hname hwhole hfirst hn
    rw [hm, List.mem_singleton] at hk
    rw [← hk]
    exact hsame
  · rintro ⟨m, hm, hall⟩
    obtain ⟨k, hk, -⟩ := mem_abstractMethods_of_remains hname hwhole hfirst hm
    have hdiffer := pairwise_abstractMethods classes name
    have hremain : ∀ n ∈ abstractMethods classes name, m.SameSignature n := fun n hn =>
      hall n (remains_of_mem_abstractMethods hname hacyclic hwhole hfirst hn)
    match hlist : abstractMethods classes name with
    | [] =>
      rw [hlist] at hk
      cases hk
    | [n] => exact ⟨n, rfl⟩
    | n :: o :: rest =>
      rw [hlist] at hdiffer hremain
      have hn := hremain n List.mem_cons_self
      have ho := hremain o (List.mem_cons_of_mem n List.mem_cons_self)
      exact absurd (hn.symm.trans ho) ((List.pairwise_cons.mp hdiffer).1 o List.mem_cons_self)

/-- Where the more specific of two declarations is visited first, an interface is functional exactly when the methods that it leaves to
implement have one signature, and the method that is found is one of them. -/
theorem isSome_find?_iff_remains {type : JType} {decl : ClassDecl} (hdecl : type.internalName?.bind classes.underlying? = some decl)
    (hinterface : decl.isInterface = true) (hacyclic : classes.Acyclic) (hwhole : classes.Whole decl.name)
    (hfirst : SpecificFirst classes decl.name) :
    ((find? classes type).isSome = true ↔
      ∃ m, Remains classes decl.name m ∧ ∀ n, Remains classes decl.name n → m.SameSignature n) ∧
    ∀ f, find? classes type = some f → f.type = decl.type ∧ Remains classes decl.name f.method := by
  obtain ⟨typeName, htype, hunderlying⟩ := Option.bind_eq_some_iff.mp hdecl
  have hname : classes.canonicalName decl.name = decl.name :=
    ClassTable.canonicalName_of_underlying? (ClassTable.underlying?_of_underlying? hunderlying)
  have hfind : ∀ f, find? classes type = some f ↔ abstractMethods classes decl.name = [f.method] ∧ f.type = decl.type := by
    intro f
    simp only [find?, htype, hunderlying, hinterface, guard, Option.bind_eq_bind, Option.bind_some, if_pos, Option.pure_def]
    split
    · rename_i method hmethods
      obtain ⟨type, method'⟩ := f
      simp [hmethods, eq_comm, and_comm]
    · rename_i hmethods
      simpa using fun h => absurd h (hmethods f.method)
  refine ⟨?_, ?_⟩
  · rw [← exists_abstractMethods_eq_singleton_iff hname hacyclic hwhole hfirst, Option.isSome_iff_exists]
    constructor
    · rintro ⟨f, hf⟩
      exact ⟨f.method, ((hfind f).mp hf).1⟩
    · rintro ⟨m, hm⟩
      exact ⟨⟨decl.type, m⟩, (hfind _).mpr ⟨hm, rfl⟩⟩
  · intro f hf
    obtain ⟨hmethods, htype⟩ := (hfind f).mp hf
    exact ⟨htype, remains_of_mem_abstractMethods hname hacyclic hwhole hfirst (by simp [hmethods])⟩

/-! ## Interfaces that list a supertype of another one they list -/

/-- An abstract method without parameters or result. -/
def sampleAbstract (name : String) : MethodDecl :=
  { name := name, params := [], result := .void, access := .accPublic ||| .accAbstract }

/-- Declares `m` abstract. -/
def sampleUpper : ClassDecl :=
  (ClassDecl.ofInterface "p/Upper").addMethods [sampleAbstract "m"]

/-- Has a body for `m`. -/
def sampleLower : ClassDecl :=
  { ClassDecl.ofInterface "p/Lower" with interfaces := ["p/Upper"] }.addMethods [{ name := "m", params := [], result := .void }]

/-- Lists both, the more specific one first, and declares a method besides. -/
def sampleRunner : ClassDecl :=
  { ClassDecl.ofInterface "p/Runner" with interfaces := ["p/Lower", "p/Upper"] }.addMethods [sampleAbstract "run"]

/-- Interfaces that list both in either order, and nothing besides. -/
def sampleListings : List ClassDecl :=
  [{ ClassDecl.ofInterface "p/UpperFirst" with interfaces := ["p/Upper", "p/Lower"] },
   { ClassDecl.ofInterface "p/LowerFirst" with interfaces := ["p/Lower", "p/Upper"] }]

def sampleHierarchy : ClassTable :=
  .registerAll .empty (sampleUpper :: sampleLower :: sampleRunner :: sampleListings)

theorem acyclic_sampleHierarchy : sampleHierarchy.Acyclic := by
  refine ClassTable.acyclic_registerAll (fun n => [WellKnown.object, "p/Upper", "p/Lower"].idxOf n) ?_
  decide +kernel

theorem strictSubtype_sampleLower : StrictSubtype sampleHierarchy sampleLower sampleUpper :=
  ⟨"p/Upper", .single (by unfold ClassTable.Step; decide +kernel), by decide +kernel⟩

theorem specificFirst_sampleRunner : SpecificFirst sampleHierarchy sampleRunner.name := by
  have hpairs : (declarations sampleHierarchy sampleRunner.name).Pairwise fun first second =>
      (decide (first.2.name = second.2.name) && sameTypes first.2.params second.2.params) = true →
        WellKnown.isObjectMethod first.2.name first.2.descriptor = WellKnown.isObjectMethod second.2.name second.2.descriptor ∧
          (first.2.isAbstract ≠ second.2.isAbstract → first.1 = sampleLower ∧ second.1 = sampleUpper) := by
    decide +kernel
  refine hpairs.imp ?_
  intro first second h hsame
  obtain ⟨hagree, hspecific⟩ := h (MethodDecl.sameSignature_iff.mpr hsame)
  refine ⟨hagree, fun hdiffer => ?_⟩
  obtain ⟨hlower, hupper⟩ := hspecific hdiffer
  rw [hlower, hupper]
  exact strictSubtype_sampleLower

/-- The more specific interface is listed first, so its body settles `m` and one method is left. -/
theorem isSome_find?_iff_remains_sampleRunner : (find? sampleHierarchy sampleRunner.type).isSome = true ∧
    ∃ m, Remains sampleHierarchy sampleRunner.name m ∧ ∀ n, Remains sampleHierarchy sampleRunner.name n → m.SameSignature n := by
  have hfound : (find? sampleHierarchy sampleRunner.type).isSome = true := by decide +kernel
  have hwhole : sampleHierarchy.Whole sampleRunner.name := by unfold ClassTable.Whole; decide +kernel
  have hdecl : sampleRunner.type.internalName?.bind sampleHierarchy.underlying? = some sampleRunner := by decide +kernel
  have hiff := isSome_find?_iff_remains hdecl (by decide +kernel) acyclic_sampleHierarchy hwhole specificFirst_sampleRunner
  exact ⟨hfound, hiff.1.mp hfound⟩

/-- Listed behind the less specific interface the body does not count: `m` is found, although no method remains. In the other order
nothing is found. -/
theorem isSome_find?_sampleUpperFirst : sampleHierarchy.Acyclic ∧ sampleHierarchy.Whole "p/UpperFirst" ∧
    (find? sampleHierarchy (.ofInterface "p/UpperFirst")).isSome = true ∧ (∀ m, ¬ Remains sampleHierarchy "p/UpperFirst" m) ∧
    find? sampleHierarchy (.ofInterface "p/LowerFirst") = none := by
  have hwhole : sampleHierarchy.Whole "p/UpperFirst" := by unfold ClassTable.Whole; decide +kernel
  have hname : sampleHierarchy.canonicalName "p/UpperFirst" = "p/UpperFirst" := by decide +kernel
  refine ⟨acyclic_sampleHierarchy, hwhole, by decide +kernel, ?_, by decide +kernel⟩
  rintro m ⟨owner, h⟩
  have hbody : ∀ x ∈ declarations sampleHierarchy "p/UpperFirst", x.2.isAbstract = true → x.1 = sampleUpper ∧
      ∃ y ∈ declarations sampleHierarchy "p/UpperFirst", y.1 = sampleLower ∧ y.2.isAbstract = false ∧
        (decide (y.2.name = x.2.name) && sameTypes y.2.params x.2.params) = true := by
    decide +kernel
  have hmem := (mem_declarations_iff hname hwhole).mpr ⟨h.inherited, h.declared, h.isInstance⟩
  obtain ⟨rfl, ⟨lower, n⟩, hn, rfl, hconcrete, hsame⟩ := hbody _ hmem h.isAbstract
  obtain ⟨hinherits, hdeclared, hinstance⟩ := (mem_declarations_iff hname hwhole).mp hn
  have := h.noBody sampleLower n hinherits strictSubtype_sampleLower hdeclared hinstance (MethodDecl.sameSignature_iff.mp hsame)
  rw [hconcrete] at this
  cases this

end FunctionalInterface

end Linkage
