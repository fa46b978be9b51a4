import Linkage.Proofs.Emission.Making
import Linkage.Proofs.Lowering.Independence
import Mathlib.Data.List.Find

/-!
# Which factories are made

A factory is made where there is something to make of its parameters and its place is free: the enclosing type is registered, and neither it
nor the class file has a method of the factory's name and descriptor (`Factory.Vacant`). In every other case the fault says what is wrong
with the creation or with the enclosing type (`Factory.create_eq_ok_iff`). The methods of the class file must lead to texts of the pool: the
constants of the body can give a method that has no name as yet that of the factory (`not_create_strayMethod`).
-/

namespace Linkage

/-! ## The class file -/

namespace ClassFile

variable {f : ClassFile}

/-- The name and the descriptor of every method stand at indices of the pool. -/
def MethodsInPool (f : ClassFile) : Prop :=
  ∀ m ∈ f.methods, m.nameIndex.toNat ≤ f.pool.entries.size ∧ m.descriptorIndex.toNat ≤ f.pool.entries.size

/-- More constants make no other methods. -/
theorem MethodsInPool.findMethod? (hf : f.MethodsInPool) {p : Pool} (hp : f.pool.Extends p) (name descriptor : String) :
    ({ f with pool := p } : ClassFile).findMethod? name descriptor = f.findMethod? name descriptor := by
  unfold ClassFile.findMethod?
  rw [← Array.find?_toList, ← Array.find?_toList]
  refine List.find?_congr fun m hm => ?_
  obtain ⟨hname, hdescriptor⟩ := hf m (Array.mem_toList_iff.mp hm)
  unfold isMethod
  rw [hp.utf8?_eq hname, hp.utf8?_eq hdescriptor]

end ClassFile

namespace Factory

/-! ## The place of a factory -/

/-- There is a place for a factory: the enclosing type is registered, and neither it nor the class file has a method of its name and
descriptor. -/
structure Vacant (w : Workspace) (factory : MethodDecl) : Prop where
  enclosing : ∃ decl, w.classes.get? w.names.owner = some decl ∧ decl.declares factory.name factory.descriptor = false
  file : w.file.findMethod? factory.name factory.descriptor = none

/-- What may be wrong with the enclosing type: it is not registered, or the factory's method is there already. -/
inductive Misplaced (w : Workspace) (factory : MethodDecl) (span : Span) : Fault → Prop where
  | unregistered : Misplaced w factory span (.defect (.unregistered w.names.owner) (some span))
  | alreadyDeclared :
    Misplaced w factory span (.defect (.alreadyDeclared w.names.owner factory.name factory.descriptor) (some span))

variable {w : Workspace} {ctx : Context} {target : JType} {exact : List Param} {span : Span}

theorem checkEnclosing_cases (classes : ClassTable) (enclosing name descriptor : String) :
    ((∃ decl, classes.get? enclosing = some decl ∧ decl.declares name descriptor = false) ∧
        checkEnclosing classes enclosing name descriptor = .ok ()) ∨
      ((¬ ∃ decl, classes.get? enclosing = some decl ∧ decl.declares name descriptor = false) ∧
        ∃ what, (what = .unregistered enclosing ∨ what = .alreadyDeclared enclosing name descriptor) ∧
          checkEnclosing classes enclosing name descriptor = .error what) := by
  unfold checkEnclosing
  cases classes.get? enclosing with
  | none => exact .inr ⟨by simp, _, .inl rfl, rfl⟩
  | some decl =>
    cases hdeclares : decl.declares name descriptor with
    | false => exact .inl ⟨⟨decl, rfl, hdeclares⟩, by simp [hdeclares]⟩
    | true => exact .inr ⟨by simp [hdeclares], _, .inr rfl, by simp [hdeclares]⟩

/-- A factory whose body is not too large is installed where there is a place for it. -/
theorem ensures_install_of_size {factory : MethodDecl} {code : CodeBuffer} (howner : factory.declaring = w.names.owner)
    (hsize : code.bytes.size ≤ CodeBuffer.maxSize) (hroom : w.file.pool.entries.size + 3 ≤ Pool.capacity) :
    Ensures (install factory code span) w (fun _ _ => Vacant w factory)
      (fun fault _ => ¬ Vacant w factory ∧ Misplaced w factory span fault) := by
  unfold install
  dsimp only
  rw [howner, ensures_bind, ensures_get, ensures_bind]
  rcases checkEnclosing_cases w.classes w.names.owner factory.name factory.descriptor with
    ⟨henclosing, hcheck⟩ | ⟨henclosing, what, hwhat, hcheck⟩
  · rw [hcheck, Except.mapError, ensures_answer_ok, ensures_bind, Lower.inFile, ensures_focus]
    refine (ClassFile.ensures_addMethod factory.access factory.name factory.descriptor code hroom).mono ?_ ?_
    · rintro _ g ⟨hnone, -⟩
      rw [ensures_modify]
      exact ⟨henclosing, hnone⟩
    · rintro _ g ⟨⟨hfound, rfl⟩ | ⟨hlarge, -⟩, -⟩
      · exact ⟨fun h => hfound h.file, .alreadyDeclared⟩
      · exact absurd hsize (Nat.not_le.mpr hlarge)
  · rw [hcheck, Except.mapError, ensures_answer_error]
    refine ⟨fun h => henclosing h.enclosing, ?_⟩
    rcases hwhat with rfl | rfl
    · exact .unregistered
    · exact .alreadyDeclared

/-! ## Making factories -/

/-- The constants that making a factory can add: those of its body, and its name, its descriptor and the name of the attribute. -/
def constants : Nat :=
  bodyConstants + 3

/-- More constants leave the place of a factory as it was. -/
theorem vacant_withPool (hw : w.file.MethodsInPool) {p : Pool} (hp : w.file.pool.Extends p) {names : NameSupply}
    (hnames : names.owner = w.names.owner) (factory : MethodDecl) :
    Vacant { w.withPool p with names := names } factory ↔ Vacant w factory := by
  have hfile := hw.findMethod? hp factory.name factory.descriptor
  constructor
  · rintro ⟨henclosing, hfree⟩
    rw [hnames] at henclosing
    exact ⟨henclosing, hfile.symm.trans hfree⟩
  · rintro ⟨henclosing, hfree⟩
    rw [← hnames] at henclosing
    exact ⟨henclosing, hfile.trans hfree⟩

/-- A factory is made just where there is something to make of its parameters and a place for it. What is wrong otherwise is the creation or
the enclosing type. -/
theorem ensures_create_of_room (hvoid : ∀ p ∈ exact, p.type ≠ .void) (hw : w.file.MethodsInPool)
    (hroom : w.file.pool.entries.size + constants ≤ Pool.capacity) :
    Ensures (create ctx target exact span) w
      (fun _ _ => Makeable (w.scope ctx.policy) exact (w.classes.canonicalType target) ∧ Vacant w (next ctx target exact w))
      (fun fault _ => ¬ (Makeable (w.scope ctx.policy) exact (w.classes.canonicalType target) ∧ Vacant w (next ctx target exact w)) ∧
        (Rejection span fault ∨ Misplaced w (next ctx target exact w) span fault)) := by
  unfold constants at hroom
  unfold create
  rw [ensures_bind, ensures_get]
  dsimp only
  rw [ensures_bind, Lower.ensures_assemble]
  have hbodyRoom : w.file.pool.entries.size + bodyConstants ≤ Pool.capacity := by omega
  refine (ensures_body (e := ⟨w.file.pool, .create 0 ctx.settings.tracing⟩) hvoid hbodyRoom).mono ?_ ?_
  · rintro _ t ⟨hmakeable, hbody⟩
    have hpool : w.file.pool.Within bodyConstants t.pool := hbody.pool
    have hsize : t.code.bytes.size ≤ CodeBuffer.maxSize :=
      Nat.le_trans hbody.size_le (by change 0 + 5 * bodyInstructions ≤ 65535; decide)
    have hentries := hpool.2
    have hnames : { w.names with count := w.names.count + 1 }.owner = w.names.owner := rfl
    -- the place is looked at once the constants of the body are in the pool
    have hplace := vacant_withPool hw hpool.1 hnames (next ctx target exact w)
    rw [ensures_bind]
    change Ensures _ { w.withPool t.pool with names := { w.names with count := w.names.count + 1 } } _ _
    rw [ensures_bind]
    refine (ensures_install_of_size rfl hsize (by change t.pool.entries.size + 3 ≤ _; omega)).mono ?_ ?_
    · intro _ u hvacant
      rw [ensures_pure]
      exact ⟨hmakeable, hplace.mp hvacant⟩
    · rintro fault u ⟨hoccupied, hfault⟩
      refine ⟨fun h => hoccupied (hplace.mpr h.2), .inr ?_⟩
      rcases hfault with - | -
      · exact .unregistered
      · exact .alreadyDeclared
  · rintro fault t ⟨hno, hfault⟩
    exact ⟨fun h => hno h.1, .inl hfault⟩

/-- A factory is made exactly where there is something to make of its parameters and a place for it, and in every other case the fault says
what is wrong with the creation or with the enclosing type. -/
theorem create_eq_ok_iff (hvoid : ∀ p ∈ exact, p.type ≠ .void) (hw : w.file.MethodsInPool)
    (hroom : w.file.pool.entries.size + constants ≤ Pool.capacity) :
    ((∃ factory t, create ctx target exact span w = .ok factory t) ↔
      Makeable (w.scope ctx.policy) exact (w.classes.canonicalType target) ∧ Vacant w (next ctx target exact w)) ∧
    ∀ fault t, create ctx target exact span w = .error fault t →
      Rejection span fault ∨ Misplaced w (next ctx target exact w) span fault := by
  have hcreate : Ensures (create ctx target exact span) w _ _ := ensures_create_of_room hvoid hw hroom
  refine ⟨⟨?_, fun hready => ?_⟩, fun _ _ herror => (hcreate.of_error herror).2⟩
  · rintro ⟨factory, t, hrun⟩
    exact hcreate.of_ok hrun
  · cases hrun : create ctx target exact span w with
    | ok factory t => exact ⟨factory, t, rfl⟩
    | error fault t => exact absurd hready (hcreate.of_error hrun).1

/-- An empty class file for `demo/Main`, with the types of the sample. -/
def sampleStart : Workspace :=
  ⟨sampleTypes, ⟨"demo/Main", 0⟩, .create "demo/Main" false {}, {}⟩

/-- A `demo/Box` can be made of two `int`s, and there is a place for its factory. -/
theorem create_eq_ok_iff_sample :
    (∀ p ∈ [Param.ofType "m" .int, .ofType "n" .int], p.type ≠ .void) ∧ sampleStart.file.MethodsInPool ∧
      sampleStart.file.pool.entries.size + constants ≤ Pool.capacity ∧
      Makeable (sampleStart.scope .language) [.ofType "m" .int, .ofType "n" .int] (sampleTypes.canonicalType (.ofClass "demo/Box")) ∧
      Vacant sampleStart (next Lower.sampleContext (.ofClass "demo/Box") [.ofType "m" .int, .ofType "n" .int] sampleStart) := by
  have hvoid : ∀ p ∈ [Param.ofType "m" .int, .ofType "n" .int], p.type ≠ .void := by decide
  have hmethods : sampleStart.file.MethodsInPool := nofun
  have hroom : sampleStart.file.pool.entries.size + constants ≤ Pool.capacity := by decide +kernel
  have hmade : (sampleRun matches .ok _ _) = true := by decide +kernel
  refine ⟨hvoid, hmethods, hroom, ?_⟩
  cases hrun : sampleRun with
  | error fault t =>
    rw [hrun] at hmade
    cases hmade
  | ok factory t => exact (create_eq_ok_iff hvoid hmethods hroom).1.mp ⟨factory, t, hrun⟩

/-- The class whose objects are made below. -/
def sampleNamesake : ClassDecl :=
  (ClassDecl.ofClass "ctorRef$main$0").addMethods [.constructor []]

/-- A class file with a method whose name would be the second constant of a pool that has one: the descriptor of a factory for the class. -/
def sampleStray : Workspace where
  classes := (ClassTable.platform.register (.ofClass "demo/Main")).register sampleNamesake
  names := ⟨"demo/Main", 0⟩
  file := { ClassFile.create "demo/Main" false {} with
    pool := ⟨#[.utf8 "()LctorRef$main$0;"]⟩
    methods := #[⟨.accPublic, 2, 1, []⟩] }
  code := {}

/-- The body of the factory makes the name of its class the second constant, which is also the name of the factory: the stray method is then
taken for a factory that is there already. -/
theorem not_create_strayMethod :
    sampleStray.file.pool.entries.size + constants ≤ Pool.capacity ∧
      Makeable (sampleStray.scope .language) [] (sampleStray.classes.canonicalType (.ofClass "ctorRef$main$0")) ∧
      Vacant sampleStray (next Lower.sampleContext (.ofClass "ctorRef$main$0") [] sampleStray) ∧
      (runStep (create Lower.sampleContext (.ofClass "ctorRef$main$0") [] .unknown) sampleStray).1 =
        .error (.defect (.alreadyDeclared "demo/Main" "ctorRef$main$0" "()LctorRef$main$0;") (some .unknown)) := by
  have htype : sampleStray.classes.canonicalType (.ofClass "ctorRef$main$0") = .ofClass "ctorRef$main$0" := by decide +kernel
  have hregistered : sampleStray.classes.underlying? "ctorRef$main$0" = some sampleNamesake := by decide +kernel
  have hvisible : sampleNamesake.methods ⊆
      AccessPolicy.language.select sampleStray.classes "demo/Main" (sampleNamesake.overloads WellKnown.constructor) := by
    decide +kernel
  have henclosing : sampleStray.classes.get? "demo/Main" = some (.ofClass "demo/Main") := by decide +kernel
  refine ⟨by decide +kernel, ?_, ⟨⟨_, henclosing, by decide⟩, by decide +kernel⟩, by decide +kernel⟩
  rw [htype]
  exact .object hregistered (by decide) ⟨hvisible List.mem_cons_self, .nil⟩ nofun

end Factory

end Linkage
