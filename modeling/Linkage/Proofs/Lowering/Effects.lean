import Linkage.Proofs.ClassTable.Agreement
import Linkage.Proofs.FunctionalInterface.Parameters
import Linkage.Proofs.Lowering.Room
import Linkage.Proofs.Resolution.Rule

/-!
# What lowering a reference leaves behind

However a reference ends, the workspace behind it differs from the one before it in little: in constants, in bootstrap methods, in code,
and in at most one factory, which has the next name (`Workspace.After`). A reference for whose demand there is room does not run out of
room.
-/

namespace Linkage

open NameSupply

variable {j k l : Nat}

/-! ## Free names -/

/-- An index of the pool keeps its entry, or goes on having none, when the pool is extended. -/
theorem Pool.Extends.utf8?_eq {p q : Pool} (h : p.Extends q) {index : UInt16} (hindex : index.toNat ≤ p.entries.size) :
    q.utf8? index = p.utf8? index := by
  have hget : q.get? index = p.get? index := by
    unfold Pool.get?
    split
    · rfl
    · rename_i hzero
      have hpositive : 0 < index.toNat := Nat.pos_of_ne_zero fun h0 => hzero (UInt16.toNat_inj.mp h0)
      obtain ⟨rest, hrest⟩ := h
      rw [← Array.getElem?_toList, ← Array.getElem?_toList, ← hrest, List.getElem?_append_left (by simp; omega)]
  unfold Pool.utf8?
  rw [hget]

/-- An index that names a text is one of the pool. -/
theorem Pool.index_le_of_utf8? {p : Pool} {index : UInt16} {text : String} (h : p.utf8? index = some text) :
    index.toNat ≤ p.entries.size :=
  (Pool.index_of_get? (Pool.utf8?_eq_some_iff.mp h)).2

/-- No method of the class file has the name, now or when more constants are added: the names of all methods are in the pool. -/
def ClassFile.Free (f : ClassFile) (name : String) : Prop :=
  ∀ m ∈ f.methods, m.nameIndex.toNat ≤ f.pool.entries.size ∧ f.pool.utf8? m.nameIndex ≠ some name

/-- A name stays free while no methods are added. -/
theorem ClassFile.Free.extend {f g : ClassFile} {name : String} (h : f.Free name) (hmethods : g.methods = f.methods)
    (hpool : f.pool.Extends g.pool) : g.Free name := by
  intro m hm
  rw [hmethods] at hm
  obtain ⟨hindex, hname⟩ := h m hm
  refine ⟨Nat.le_trans hindex ?_, ?_⟩
  · simpa using hpool.length_le
  · rw [hpool.utf8?_eq hindex]
    exact hname

/-- Neither the enclosing type nor the class file has a method of the name. -/
structure Workspace.Free (w : Workspace) (name : String) : Prop where
  declared : ∀ decl, w.classes.get? w.names.owner = some decl → ∀ m ∈ decl.methods, m.name ≠ name
  stored : w.file.Free name

/-- A name stays free while nothing but constants and bootstrap methods is added. -/
theorem Workspace.Keeps.free {w t : Workspace} (h : w.Keeps j k t) {name : String} (hw : w.Free name) : t.Free name := by
  refine ⟨?_, hw.stored.extend h.file.methods h.file.pool.1⟩
  rw [h.classes, h.names]
  exact hw.declared

/-! ## Factories -/

/-- A method is added with its name, or not at all: there is one of its name and descriptor, or its code is too large. -/
theorem ClassFile.ensures_addMethod (access : Access) (name descriptor : String) (code : CodeBuffer) {f : ClassFile}
    (hpool : f.pool.entries.size + 3 ≤ Pool.capacity) :
    Ensures (addMethod access name descriptor code) f
      (fun _ g => f.findMethod? name descriptor = none ∧ ∃ p m, f.pool.Within 3 p ∧ p.utf8? m.nameIndex = some name ∧
        g = { f with pool := p, methods := f.methods.push m })
      (fun fault g => (f.findMethod? name descriptor ≠ none ∧ fault = .duplicateMethod name descriptor ∨
        CodeBuffer.maxSize < code.bytes.size ∧ fault = .code .tooLarge) ∧ f.Keeps 0 3 g) := by
  have hnothing : f.Keeps 0 3 f := (Keeps.refl f).mono (Nat.le_refl 0) (Nat.zero_le 3)
  have hf : f.pool.Fits := Nat.le_trans (Nat.le_add_right _ 3) hpool
  refine (outcome_addMethod Handle.Permitted 0 access name descriptor code hf).mono ?_ ?_
  · rintro _ g ⟨hnew, -, m, -, hrecords, hgrows, hsize, hg⟩
    have hnone : f.findMethod? name descriptor = none :=
      Option.not_isSome_iff_eq_none.mp fun hfound => hnew (isSome_findMethod?_iff.mp hfound)
    exact ⟨hnone, g.pool, m, ⟨hgrows.toExtends, hsize⟩, hrecords.name, hg⟩
  · rintro fault g (⟨hfound, rfl, rfl⟩ | ⟨-, hlarge, rfl, rfl⟩ | ⟨-, -, -, hfull, -⟩)
    · exact ⟨.inl ⟨Option.isSome_iff_ne_none.mp (isSome_findMethod?_iff.mpr hfound), rfl⟩, hnothing⟩
    · exact ⟨.inr ⟨hlarge, rfl⟩, hnothing⟩
    · exact absurd hpool (Nat.not_le_of_lt hfull)

/-- A declaration that a method was added to has the methods that it had, and that one. -/
theorem ClassTable.mem_methods_of_addMethod? {t u : ClassTable} {className : String} {m : MethodDecl} {decl : ClassDecl}
    (h : t.addMethod? className m = some u) (hdecl : u.get? className = some decl) :
    ∃ before, t.get? className = some before ∧ ∀ n ∈ decl.methods, n ∈ before.methods ∨ n.name = m.name := by
  obtain ⟨c, hc, -, hu⟩ := get?_addMethod? h
  refine ⟨c, hc, ?_⟩
  rw [hu, if_pos rfl] at hdecl
  rw [← Option.some.inj hdecl]
  intro n hn
  rcases List.mem_append.mp hn with hn | hn
  · exact .inl hn
  · rw [List.mem_singleton.mp hn]
    exact .inr rfl

/-- The enclosing type is the same, and the known types differ in factories only. -/
structure Workspace.Agrees (w t : Workspace) : Prop where
  owner : t.names.owner = w.names.owner
  classes : w.classes.Agrees t.classes
  name : t.file.name = w.file.name
  isInterface : t.file.isInterface = w.file.isInterface

/-- What a reference that was lowered in a method leaves behind: as many bootstrap methods and constants more as it may add, code, the
number of names given out, and the factory of the next name. -/
structure Workspace.After (method : Option String) (j k : Nat) (w t : Workspace) : Prop extends w.Agrees t where
  count : t.names.count = w.names.count ∨ t.names.count = w.names.count + 1
  bootstraps : t.file.bootstraps.size ≤ w.file.bootstraps.size + j
  pool : w.file.pool.Within k t.file.pool
  free : ∀ name, w.Free name → (t.names.count = w.names.count + 1 → name ≠ factoryName method w.names.count) → t.Free name

namespace Workspace

variable {method : Option String} {w t u : Workspace}

theorem Agrees.symm (h : w.Agrees t) : t.Agrees w :=
  ⟨h.owner.symm, h.classes.symm, h.name.symm, h.isInterface.symm⟩

theorem Agrees.trans (h : w.Agrees t) (h' : t.Agrees u) : w.Agrees u :=
  ⟨h'.owner.trans h.owner, h.classes.trans h'.classes, h'.name.trans h.name, h'.isInterface.trans h.isInterface⟩

/-- A workspace that is kept agrees with what it was. -/
theorem Keeps.agrees (h : w.Keeps j k t) : w.Agrees t :=
  ⟨by rw [h.names], by rw [h.classes]; exact .refl _, h.file.name, h.file.isInterface⟩

/-- A workspace that is kept is one that lowering may leave: no name was given out. -/
theorem Keeps.after (h : w.Keeps j k t) (method : Option String) : w.After method j k t :=
  ⟨h.agrees, .inl (by rw [h.names]), h.file.bootstraps, h.file.pool, fun _ hname _ => h.free hname⟩

/-- What comes behind a lowered reference may add bootstrap methods and constants of its own. -/
theorem After.keeps (h : w.After method i k t) (h' : t.Keeps j l u) : w.After method (i + j) (k + l) u where
  toAgrees := h.toAgrees.trans h'.agrees
  count := by rw [h'.names]; exact h.count
  bootstraps := by
    have hfirst := h.bootstraps
    have hsecond := h'.file.bootstraps
    omega
  pool := h.pool.trans h'.file.pool
  free := by
    intro name hname hnew
    rw [h'.names] at hnew
    exact h'.free (h.free name hname hnew)

/-- More may have been allowed. -/
theorem After.mono (h : w.After method i k t) (hij : i ≤ j) (hkl : k ≤ l) : w.After method j l t :=
  { h with bootstraps := Nat.le_trans h.bootstraps (Nat.add_le_add_left hij _), pool := h.pool.mono hkl }

end Workspace

namespace Factory

/-- The factory for a target type, as the next one of a workspace. -/
def next (ctx : Context) (target : JType) (exact : List Param) (w : Workspace) : MethodDecl where
  name := factoryName ctx.method w.names.count
  params := exact
  result := w.classes.canonicalType target
  access := access w.file.isInterface
  declaring := w.names.owner

/-- The next factory is static, and named like a factory. -/
theorem isFactory_next (ctx : Context) (target : JType) (exact : List Param) (w : Workspace) : (next ctx target exact w).IsFactory :=
  ⟨isStatic_access w.file.isInterface, isFactoryName_factoryName _ _⟩

/-- The workspace once a factory is installed in it. -/
def installed (factory : MethodDecl) (p : Pool) (m : MethodEntry) (w : Workspace) : Workspace :=
  { w with
    classes := (w.classes.addMethod? factory.declaring factory).getD w.classes
    file := { w.file with pool := p, methods := w.file.methods.push m } }

/-- A factory is installed in the class file and in the enclosing type, or in neither. -/
theorem ensures_install (factory : MethodDecl) (code : CodeBuffer) (span : Span) {w : Workspace}
    (hpool : w.file.pool.entries.size + 3 ≤ Pool.capacity) :
    Ensures (install factory code span) w
      (fun _ t => ∃ p m, w.file.pool.Within 3 p ∧ p.utf8? m.nameIndex = some factory.name ∧ t = installed factory p m w)
      (fun fault t => ¬ fault.IsExhaustion ∧ w.Keeps 0 3 t) := by
  unfold install
  rw [ensures_bind, ensures_get, ensures_bind, ensures_answer]
  refine ⟨fun _ _ => ?_, fun fault hfault => ⟨?_, (Workspace.Keeps.refl w).mono (Nat.le_refl 0) (Nat.zero_le 3)⟩⟩
  · rw [ensures_bind, Lower.inFile, ensures_focus]
    refine (ClassFile.ensures_addMethod factory.access factory.name factory.descriptor code hpool).mono ?_ ?_
    · rintro _ g ⟨-, p, m, hp, hm, rfl⟩
      rw [ensures_modify]
      exact ⟨p, m, hp, hm, rfl⟩
    · rintro _ g ⟨⟨-, rfl⟩ | ⟨-, rfl⟩, hg⟩
      · exact ⟨id, rfl, rfl, hg⟩
      · exact ⟨id, rfl, rfl, hg⟩
  · obtain ⟨what, -, rfl⟩ := mapError_eq_error.mp hfault
    exact id

/-- The known types agree with those that a factory has joined. -/
theorem agrees_installed {factory : MethodDecl} (hfactory : factory.IsFactory) (p : Pool) (m : MethodEntry) (w : Workspace) :
    w.classes.Agrees (installed factory p m w).classes := by
  unfold installed
  cases hadd : w.classes.addMethod? factory.declaring factory with
  | none => exact .refl _
  | some u => exact .addMethod? hfactory hadd

/-- A name that is free and that the factory does not have stays free. -/
theorem free_installed {factory : MethodDecl} {p : Pool} {m : MethodEntry} {w : Workspace} {name : String}
    (hdeclaring : factory.declaring = w.names.owner) (hp : w.file.pool.Extends p) (hm : p.utf8? m.nameIndex = some factory.name)
    (hw : w.Free name) (hnew : name ≠ factory.name) : (installed factory p m w).Free name := by
  refine ⟨?_, ?_⟩
  · intro decl hdecl n hn
    unfold installed at hdecl
    cases hadd : w.classes.addMethod? factory.declaring factory with
    | none =>
      rw [hadd] at hdecl
      exact hw.declared decl hdecl n hn
    | some u =>
      rw [hadd] at hdecl
      obtain ⟨before, hbefore, hmethods⟩ := ClassTable.mem_methods_of_addMethod? hadd (hdeclaring ▸ hdecl)
      rcases hmethods n hn with hn | hn
      · exact hw.declared before (hdeclaring ▸ hbefore) n hn
      · rw [hn]
        exact hnew.symm
  · intro n hn
    rcases Array.mem_push.mp hn with hn | rfl
    · exact hw.stored.extend (g := { w.file with pool := p }) rfl hp n hn
    · refine ⟨Pool.index_le_of_utf8? hm, ?_⟩
      change p.utf8? n.nameIndex ≠ some name
      rw [hm]
      exact fun h => hnew (Option.some.inj h).symm

end Factory

/-- Installing the factory that has the name which was taken. -/
theorem Workspace.After.installed {method : Option String} {w t : Workspace} {factory : MethodDecl} {p : Pool} {m : MethodEntry}
    (h : w.After method j k t) (hfactory : factory.IsFactory) (hdeclaring : factory.declaring = t.names.owner)
    (hp : t.file.pool.Within l p) (hm : p.utf8? m.nameIndex = some factory.name) (hcount : t.names.count = w.names.count + 1)
    (hname : factory.name = factoryName method w.names.count) : w.After method j (k + l) (Factory.installed factory p m t) where
  owner := h.owner
  count := h.count
  classes := h.classes.trans (Factory.agrees_installed hfactory p m t)
  name := h.name
  isInterface := h.isInterface
  bootstraps := h.bootstraps
  pool := h.pool.trans hp
  free := by
    intro name hfree hnew
    refine Factory.free_installed hdeclaring hp.1 hm (h.free name hfree hnew) ?_
    rw [hname]
    exact hnew hcount

namespace Factory

/-- Making a factory leaves the factory of the next name behind, or takes the name at most. -/
theorem after_create (ctx : Context) (target : JType) (exact : List Param) (span : Span) {w : Workspace}
    (hroom : w.file.Room 0 (6 * exact.length + 11)) :
    Ensures (create ctx target exact span) w
      (fun factory t => factory = next ctx target exact w ∧ w.After ctx.method 0 (6 * exact.length + 11) t)
      (fun fault t => ¬ fault.IsExhaustion ∧ w.After ctx.method 0 (6 * exact.length + 11) t) := by
  unfold create
  rw [ensures_bind, ensures_get]
  dsimp only
  rw [ensures_bind]
  refine (Lower.spends_assemble _ (takes_body _ _ _ _) w (hroom.mono (Nat.le_refl 0) (by omega))).mono ?_ ?_
  · intro code w₁ h₁
    rw [ensures_bind]
    have hnamed : Ensures (takeName ctx.method) w₁
        (fun name t => name = factoryName ctx.method w.names.count ∧ t.names = { w.names with count := w.names.count + 1 } ∧
          w.After ctx.method 0 (6 * exact.length + 8) t) (fun _ _ => False) := by
      have hnames : (w₁.names.next ctx.method) = (factoryName ctx.method w.names.count, { w.names with count := w.names.count + 1 }) := by
        rw [h₁.names]
        rfl
      unfold Ensures takeName
      simp only [hnames]
      refine ⟨trivial, trivial, ⟨rfl, h₁.agrees.classes, h₁.file.name, h₁.file.isInterface⟩, .inr rfl, h₁.file.bootstraps, h₁.file.pool, ?_⟩
      intro name hname _
      obtain ⟨hdeclared, hstored⟩ := h₁.free hname
      rw [h₁.names] at hdeclared
      exact ⟨hdeclared, hstored⟩
    refine hnamed.mono ?_ (fun _ _ h => h.elim)
    rintro _ w₂ ⟨rfl, hnames, h₂⟩
    have hsize := h₂.pool.2
    have hpool := hroom.pool
    rw [ensures_bind]
    refine (ensures_install (next ctx target exact w) code span (by omega)).mono ?_ ?_
    · rintro _ _ ⟨p, m, hp, hm, rfl⟩
      rw [ensures_pure]
      exact ⟨rfl, h₂.installed (isFactory_next ctx target exact w) h₂.owner.symm hp hm (by rw [hnames]) rfl⟩
    · rintro fault t ⟨hfault, ht⟩
      exact ⟨hfault, h₂.keeps ht⟩
  · rintro fault t ⟨hfault, ht⟩
    exact ⟨hfault, (ht.mono (Nat.le_refl 0) (by omega)).after _⟩

end Factory

/-! ## References -/

/-- The constants that a reference can add: those of its receiver, six for each parameter of a factory, eleven for the factory and
twenty-two for the call site. -/
def Reference.demand (r : Reference) : Nat :=
  r.target.demand + 6 * (r.inferred.getD []).length + 33

namespace Reference

variable {r : Reference} {classes : ClassTable} {f : FunctionalInterface} {inferred : List (Option JType)} {exact : List Param}
  {span : Span}

/-- The types that were inferred are those that were found. -/
theorem inferred_of_findings (h : r.findings classes = .ok (f, inferred)) : r.inferred = some inferred := by
  unfold findings at h
  split at h
  · cases h
  · split at h
    · cases h
    · split at h
      · cases h
      · rename_i hinferred
        cases h
        exact hinferred

/-- The part of the demand that a factory of the exact parameters can take, and the part of the call site. -/
theorem demand_eq (hfindings : r.findings classes = .ok (f, inferred)) (hexact : f.exactParams classes inferred span = .ok exact) :
    r.demand = 6 * exact.length + 11 + (r.target.demand + 22) := by
  have hlength := FunctionalInterface.length_of_exactParams hexact
  unfold demand
  rw [inferred_of_findings hfindings, Option.getD_some]
  omega

end Reference

namespace Lower

/-- What is wrong with a reference before its call site is written has nothing to do with room. -/
theorem not_isExhaustion_of_resolve {s : Scope} {r : Reference} {exact : List Param} {fault : Fault}
    (h : s.resolve r exact = .error fault) : ¬ fault.IsExhaustion := by
  have hdenotes := Scope.denotes_resolve s r exact
  rw [h] at hdenotes
  cases hdenotes <;> exact id

/-- Inferred types that do not fit have nothing to do with room. -/
theorem not_isExhaustion_of_exactParams {classes : ClassTable} {f : FunctionalInterface} {inferred : List (Option JType)} {span : Span}
    {fault : Fault} (h : f.exactParams classes inferred span = .error fault) : ¬ fault.IsExhaustion := by
  rcases FunctionalInterface.exactParams_eq_error h with ⟨what, rfl⟩ | ⟨type, expected, rfl⟩
  · exact id
  · exact id

/-- Binds a reference, to a factory or to a member. -/
def bindReference (ctx : Context) (r : Reference) (exact : List Param) : Lower Binding :=
  if r.isCreation then bindCreation ctx r exact else bindMember ctx r exact

/-- Lowering, with the binding as a step of its own. -/
theorem linkReference_eq (ctx : Context) (r : Reference) (f : FunctionalInterface) (inferred : List (Option JType)) :
    linkReference ctx r f inferred = (do
      let w ← get
      let exact ← answer (f.exactParams w.classes inferred r.span)
      let binding ← bindReference ctx r exact
      let site ← CallSite.link ctx r.target f binding
      return ⟨binding, site, if r.isCreation then some binding.method else none⟩) := by
  unfold linkReference bindReference
  cases r.isCreation <;> rfl

variable {ctx : Context} {r : Reference} {w : Workspace}

/-- Binding a reference leaves at most a factory behind. -/
theorem after_bindReference {exact : List Param} (hroom : w.file.Room 0 (6 * exact.length + 11)) :
    Ensures (bindReference ctx r exact) w
      (fun b t => w.After ctx.method 0 (6 * exact.length + 11) t ∧ b.isCreation = r.isCreation)
      (fun fault t => ¬ fault.IsExhaustion ∧ w.After ctx.method 0 (6 * exact.length + 11) t) := by
  have hsame : w.After ctx.method 0 (6 * exact.length + 11) w :=
    ((Workspace.Keeps.refl w).mono (Nat.le_refl 0) (Nat.zero_le _)).after ctx.method
  unfold bindReference
  split
  · rename_i hcreation
    unfold bindCreation
    cases r.target with
    | value e => exact ⟨id, hsame⟩
    | type type span =>
      rw [ensures_bind]
      refine (Factory.after_create ctx type exact r.span hroom).mono ?_ (fun _ _ h => h)
      rintro factory t ⟨-, ht⟩
      rw [ensures_bind, ensures_get, ensures_pure]
      exact ⟨ht, hcreation.symm⟩
  · rename_i hcreation
    unfold bindMember
    rw [ensures_bind, ensures_get, ensures_bind, ensures_answer]
    exact ⟨fun _ _ => ⟨hsame, (Bool.eq_false_iff.mpr hcreation).symm⟩, fun fault hfault => ⟨not_isExhaustion_of_resolve hfault, hsame⟩⟩

/-- Whatever becomes of a reference, it does not run out of room where there is room for its demand, and leaves no more behind. -/
theorem after_reference (hreceiver : ctx.emitReceiver = Expr.emit) (hroom : w.file.Room 1 r.demand) :
    Ensures (reference ctx r) w (fun _ t => w.After ctx.method 1 r.demand t)
      (fun fault t => ¬ fault.IsExhaustion ∧ w.After ctx.method 1 r.demand t) := by
  have hsame : w.After ctx.method 1 r.demand w :=
    ((Workspace.Keeps.refl w).mono (Nat.zero_le 1) (Nat.zero_le _)).after ctx.method
  unfold reference
  rw [ensures_bind, ensures_get]
  cases hfindings : r.findings w.classes with
  | error reason => exact hsame
  | ok found =>
    obtain ⟨f, inferred⟩ := found
    dsimp only
    rw [ensures_bind, linkReference_eq, ensures_bind, ensures_get, ensures_bind, ensures_answer]
    refine ⟨fun exact hexact => ?_, fun fault hfault => ⟨not_isExhaustion_of_exactParams hfault, hsame⟩⟩
    rw [Reference.demand_eq hfindings hexact] at hroom ⊢
    rw [ensures_bind]
    refine (after_bindReference (hroom.mono (Nat.zero_le 1) (Nat.le_add_right _ _))).mono ?_ ?_
    · rintro b t ⟨ht, -⟩
      rw [ensures_bind]
      refine (CallSite.spends_link hreceiver r.target f b t (hroom.rest ht.bootstraps ht.pool)).mono ?_ ?_
      · intro site u hu
        exact ht.keeps hu
      · rintro fault u ⟨hfault, hu⟩
        exact ⟨hfault, ht.keeps hu⟩
    · rintro fault t ⟨hfault, ht⟩
      exact ⟨hfault, ht.mono (Nat.zero_le 1) (by omega)⟩

end Lower

end Linkage
