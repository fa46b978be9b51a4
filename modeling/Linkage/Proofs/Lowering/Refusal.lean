import Linkage.Proofs.Lowering.Independence
import Linkage.Proofs.Pool.Additions

/-!
# What a reference changes

Lowering a reference adds constants until everything that can be wrong with it has been checked. Only then does a factory join the class
file and its type (`MethodDecl.Joins`), and only then are a bootstrap method and code written. A reference that ends in a fault, unless a
table is full, leaves nothing but constants, one number taken, and what its receiver has written (`Reference.Refused`).
-/

namespace Linkage

/-! ## Steps that add constants only -/

/-- The class file with more constants. -/
structure ClassFile.Gains (f g : ClassFile) : Prop where
  rest : g = f.withPool g.pool
  pool : f.pool.Gains g.pool

/-- The workspace with more constants. -/
structure Workspace.Gains (w t : Workspace) : Prop where
  rest : t = w.withPool t.file.pool
  pool : w.file.pool.Gains t.file.pool

namespace ClassFile

theorem Gains.refl (f : ClassFile) : f.Gains f :=
  ⟨rfl, .refl⟩

end ClassFile

theorem Workspace.Gains.refl (w : Workspace) : w.Gains w :=
  ⟨rfl, .refl⟩

/-- The method of the class file is the one that was declared: it has the same flags, name and descriptor. -/
structure MethodEntry.Stores (p : Pool) (method : MethodDecl) (m : MethodEntry) : Prop where
  access : m.access = method.access
  name : p.utf8? m.nameIndex = some method.name
  descriptor : p.utf8? m.descriptorIndex = some method.descriptor

/-- The entry goes on storing its method while the pool is extended. -/
theorem MethodEntry.Stores.mono {p q : Pool} {method : MethodDecl} {m : MethodEntry} (h : m.Stores p method) (hpq : p.Extends q) :
    m.Stores q method :=
  ⟨h.access, hpq.utf8? h.name, hpq.utf8? h.descriptor⟩

/-- A method is added at the end, or not at all. -/
theorem ClassFile.ends_addMethod {method : MethodDecl} {code : CodeBuffer} {f : ClassFile} (hf : f.pool.Fits) :
    Ensures (addMethod method.access method.name method.descriptor code) f
      (fun _ g => ∃ m, g = { f with pool := g.pool, methods := f.methods.push m } ∧ f.pool.Gains g.pool ∧ m.Stores g.pool method)
      (fun _ g => f.Gains g) := by
  refine (outcome_addMethod (fun _ kind => kind ≠ .field) UInt16.size method.access method.name method.descriptor code hf).mono ?_ ?_
  · rintro _ g ⟨-, -, m, haccess, hrecords, hgrows, -, hg⟩
    exact ⟨m, hg, hgrows, haccess, hrecords.name, hrecords.descriptor⟩
  · rintro fault g (⟨-, -, rfl⟩ | ⟨-, -, -, rfl⟩ | ⟨-, -, -, -, hgrows, hg⟩)
    · exact .refl g
    · exact .refl g
    · exact ⟨hg, hgrows⟩

/-- A body of its own adds constants only. -/
theorem Lower.gains_assemble {tracing : Bool} {step : Emit Unit} {w : Workspace} (hw : w.file.pool.Fits)
    (hstep : Emit.GrowsPool (fun _ kind => kind ≠ .field) UInt16.size step) :
    Ensures (assemble tracing step) w (fun _ t => w.Gains t) (fun _ t => w.Gains t) := by
  rw [ensures_assemble]
  exact Ensures.mono (hstep ⟨w.file.pool, .create 0 tracing⟩ hw) (fun _ _ he => ⟨rfl, he.1⟩) (fun _ _ he => ⟨rfl, he⟩)

/-! ## Factories -/

/-- The method is new in its type and has joined the methods of the type, and it has joined the methods of the class file. -/
structure MethodDecl.Joins (method : MethodDecl) (w t : Workspace) : Prop where
  declared : ∃ decl, w.classes.get? method.declaring = some decl ∧ decl.declares method.name method.descriptor = false ∧
    t.classes = w.classes.register { decl with methods := decl.methods ++ [method] }
  stored : ∃ m, t.file.methods = w.file.methods.push m ∧ m.Stores t.file.pool method
  pool : w.file.pool.Gains t.file.pool

namespace Factory

variable {w : Workspace}

/-- A type takes a method that it does not declare. -/
theorem addMethod?_of_checkEnclosing {classes : ClassTable} {factory : MethodDecl}
    (h : checkEnclosing classes factory.declaring factory.name factory.descriptor = .ok ()) :
    ∃ decl, classes.get? factory.declaring = some decl ∧ decl.declares factory.name factory.descriptor = false ∧
      classes.addMethod? factory.declaring factory = some (classes.register { decl with methods := decl.methods ++ [factory] }) := by
  unfold checkEnclosing at h
  split at h
  · cases h
  · rename_i decl hdecl
    split at h
    · cases h
    · rename_i hnew
      rw [Bool.not_eq_true] at hnew
      have hname : decl.name = factory.declaring := ClassTable.name_of_get? hdecl
      refine ⟨decl, hdecl, hnew, ?_⟩
      simp [ClassTable.addMethod?, ClassDecl.addMethod?, hdecl, hnew, hname]

/-- A factory that is new joins the class file and its type, or neither. -/
theorem ends_install {factory : MethodDecl} {code : CodeBuffer} {span : Span} (hw : w.file.pool.Fits) :
    Ensures (install factory code span) w (fun _ t => factory.Joins w t) (fun _ t => w.Gains t) := by
  unfold install
  rw [ensures_bind, ensures_get, ensures_bind, ensures_answer]
  refine ⟨fun _ hcheck => ?_, fun _ _ => .refl w⟩
  obtain ⟨decl, hdecl, hdeclares, hadd⟩ := addMethod?_of_checkEnclosing (mapError_eq_ok.mp hcheck)
  rw [ensures_bind, Lower.inFile, ensures_focus]
  refine (ClassFile.ends_addMethod hw).mono ?_ ?_
  · rintro _ g ⟨m, hg, hpool, hm⟩
    rw [ensures_modify]
    refine ⟨⟨decl, hdecl, hdeclares, ?_⟩, ⟨m, congrArg ClassFile.methods hg, hm⟩, hpool⟩
    rw [hadd]
    rfl
  · rintro fault g hg
    refine ⟨?_, hg.pool⟩
    change { w with file := g } = { w with file := w.file.withPool g.pool }
    rw [← hg.rest]

/-- A factory that is made joins the class file and the enclosing type. One that is not made leaves constants, and its number taken or
not. -/
theorem ends_create (ctx : Context) (target : JType) (exact : List Param) (span : Span) (hw : w.file.pool.Fits) :
    Ensures (create ctx target exact span) w
      (fun factory t => factory.declaring = w.names.owner ∧ factory.access = access w.file.isInterface ∧ factory.Joins w t)
      (fun _ t => ∃ names, (names = w.names ∨ names = { w.names with count := w.names.count + 1 }) ∧
        { w with names := names }.Gains t) := by
  unfold create
  rw [ensures_bind, ensures_get]
  dsimp only
  rw [ensures_bind]
  refine (Lower.gains_assemble hw (growsPool_body _ _ _ _)).mono ?_ (fun _ t ht => ⟨w.names, .inl rfl, ht⟩)
  intro code w₁ h₁
  obtain ⟨p, rfl⟩ : ∃ p, w₁ = w.withPool p := ⟨_, h₁.rest⟩
  have hpool : w.file.pool.Gains p := h₁.pool
  rw [ensures_bind]
  change Ensures _ { w.withPool p with names := { w.names with count := w.names.count + 1 } } _ _
  rw [ensures_bind]
  refine (ends_install (hpool.fits hw)).mono ?_ ?_
  · intro _ t ht
    rw [ensures_pure]
    exact ⟨rfl, rfl, ht.declared, ht.stored, Pool.Grows.trans hpool ht.pool⟩
  · intro _ t ht
    refine ⟨_, .inr rfl, ?_, Pool.Grows.trans hpool ht.pool⟩
    exact ht.rest

end Factory

/-! ## Call sites -/

/-- Constants and bootstrap methods were added to the class file, and no method. -/
structure ClassFile.KeepsMethods (f g : ClassFile) : Prop where
  methods : g.methods = f.methods
  pool : f.pool.Gains g.pool

namespace ClassFile

variable {α β : Type} {f g h : ClassFile}

theorem KeepsMethods.trans (hfg : f.KeepsMethods g) (hgh : g.KeepsMethods h) : f.KeepsMethods h :=
  ⟨hgh.methods.trans hfg.methods, Pool.Grows.trans hfg.pool hgh.pool⟩

/-- Wherever the step starts, it adds constants and bootstrap methods, and no method, also when it fails. -/
def Supplies (step : Step α) : Prop :=
  ∀ f : ClassFile, f.pool.Fits → Moves KeepsMethods step f fun _ _ => True

/-- An answer supplies nothing. -/
theorem supplies_pure (a : α) : Supplies (pure a) :=
  fun _ _ => ⟨⟨rfl, .refl⟩, trivial⟩

/-- One step after another supplies what both do. -/
theorem supplies_bind {x : Step α} {k : α → Step β} (hx : Supplies x) (hk : ∀ a, Supplies (k a)) : Supplies (x >>= k) :=
  fun f hf => Moves.bind (R := KeepsMethods) (fun _ _ _ => KeepsMethods.trans) (hx f hf) fun a g hfg _ => hk a g (hfg.pool.fits hf)

/-- A step on the pool adds constants only. -/
theorem supplies_inPool {step : Pool.Step α} {view : α → Pool → Prop} (h : ∀ p : Pool, p.Fits → Moves Pool.Gains step p view) :
    Supplies (inPool step) :=
  fun f hf => Moves.focus (h f.pool hf) (fun _ hp => ⟨rfl, hp⟩) fun _ _ _ => trivial

/-- A bootstrap method is added at the end, or was there. -/
theorem supplies_addBootstrap (methodRef : UInt16) (arguments : List UInt16) : Supplies (addBootstrap methodRef arguments) := by
  intro f _
  have hsame : f.KeepsMethods f := ⟨rfl, .refl⟩
  unfold Moves Ensures addBootstrap
  cases f.bootstraps.findIdx? (· = ⟨methodRef, arguments⟩) with
  | some i => exact ⟨hsame, trivial⟩
  | none =>
    by_cases hroom : f.bootstraps.size < maxBootstraps
    · simp only [hroom, if_true]
      exact ⟨⟨rfl, .refl⟩, trivial⟩
    · simp only [hroom, if_false]
      exact hsame

end ClassFile

/-- Constants, bootstrap methods and code were added to the workspace, and no method. -/
structure Workspace.KeepsMethods (w t : Workspace) : Prop where
  classes : t.classes = w.classes
  file : w.file.KeepsMethods t.file

theorem Workspace.KeepsMethods.refl (w : Workspace) : w.KeepsMethods w :=
  ⟨rfl, rfl, .refl⟩

theorem Workspace.KeepsMethods.trans {w t u : Workspace} (hwt : w.KeepsMethods t) (htu : t.KeepsMethods u) : w.KeepsMethods u :=
  ⟨htu.classes.trans hwt.classes, hwt.file.trans htu.file⟩

namespace CallSite

open ClassFile

variable {w : Workspace} {ctx : Context}

/-- What is added for a call site. -/
theorem supplies_addConstants (bootstrap : BootstrapMethod) (ownerIsInterface : Bool) (c : CallSite) :
    Supplies (addConstants bootstrap ownerIsInterface c) := by
  have htype : ∀ descriptor, Supplies (inPool (Pool.addMethodType descriptor)) := fun descriptor =>
    supplies_inPool fun _ hp => (Pool.Addition.methodType descriptor).gains_step hp
  have hhandle : ∀ number owner name descriptor onInterface,
      Supplies (inPool (Pool.addMethodHandle number owner name descriptor onInterface)) := fun number owner name descriptor onInterface =>
    supplies_inPool fun _ hp => (Pool.Addition.methodHandle number owner name descriptor onInterface).gains_step hp
  have hdynamic : ∀ index name descriptor, Supplies (inPool (Pool.addInvokeDynamic index name descriptor)) := fun index name descriptor =>
    supplies_inPool fun _ hp => (Pool.Addition.invokeDynamic index name descriptor).gains_step hp
  intro f hf
  unfold addConstants Moves
  rw [ensures_bind, ensures_get]
  exact supplies_bind (htype _) (fun erased => supplies_bind (hhandle _ _ _ _ _) fun implementation =>
    supplies_bind (htype _) fun instantiated => supplies_bind (hhandle _ _ _ _ _) fun handle =>
    supplies_bind (supplies_addBootstrap _ _) fun bootstrapIndex => supplies_bind (hdynamic _ _ _) fun constantIndex =>
    supplies_pure _) f hf

/-- The receiver that a call site captures has pushed an entry. If its code could not be written to its end, the code is left as far as it
was. -/
theorem ends_writeReceiver (hreceiver : ctx.emitReceiver = Expr.emit) (target : Target) (b : Binding) (hw : w.file.pool.Fits) :
    Ensures (writeReceiver ctx b target) w
      (fun _ t => w.KeepsMethods t ∧ (if (b.captured? target).isSome then 1 else 0) ≤ t.code.stack.length)
      (fun fault t => ∃ e, target = .value e ∧ e.emit w.emission = .error fault t.emission ∧ t = w.withEmission t.emission ∧
        w.file.pool.Gains t.file.pool) := by
  unfold writeReceiver
  cases hcaptured : b.captured? target with
  | none => exact ⟨.refl w, Nat.zero_le _⟩
  | some e =>
    have hgrows : Emit.Adds (fun _ kind => kind ≠ .field) UInt16.size e.emit w.emission fun _ _ => True := e.growsPool_emit w.emission hw
    dsimp only
    rw [hreceiver, Lower.emit, ensures_focus]
    refine Ensures.intro (fun _ t hrun => ⟨⟨rfl, rfl, (hgrows.of_ok hrun).1⟩, ?_⟩) fun fault t hrun =>
      ⟨e, Binding.target_of_captured? hcaptured, hrun, rfl, hgrows.of_error hrun⟩
    obtain ⟨entry, -, hstack⟩ := (e.pushes_emit w.emission).of_ok hrun
    change 1 ≤ t.code.stack.length
    rw [hstack]
    exact Nat.le_add_left 1 _

/-- A call site is linked without a method being added. When it is not, a table is full or its receiver could not be written. -/
theorem ends_link (hreceiver : ctx.emitReceiver = Expr.emit) (target : Target) (f : FunctionalInterface) (b : Binding)
    (hw : w.file.pool.Fits) :
    Ensures (link ctx target f b) w (fun _ t => w.KeepsMethods t)
      (fun fault t => fault.IsExhaustion ∨ ∃ e, target = .value e ∧ e.emit w.emission = .error fault t.emission ∧
        t = w.withEmission t.emission ∧ w.file.pool.Gains t.file.pool) := by
  rw [link_eq, ensures_bind, ensures_get, ensures_bind]
  refine (ends_writeReceiver hreceiver target b hw).mono ?_ (fun _ _ h => .inr h)
  rintro _ t ⟨ht, hstack⟩
  rw [ensures_bind, Lower.inFile, ensures_focus]
  have hconstants := ((supplies_addConstants ctx.settings.bootstrap b.ownerIsInterface (describe w.classes target f b) t.file
    (ht.file.pool.fits hw)).and (ensures_addConstants _ _ _ t.file)).and (failsFull_addConstants _ _ _ t.file)
  refine hconstants.mono ?_ (fun _ _ h => .inl h.2)
  rintro site g ⟨⟨⟨hg, -⟩, hsite⟩, -⟩
  have hcaptures : (if site.capturesReceiver then 1 else 0) = (if (b.captured? target).isSome then 1 else 0) := by
    rw [hsite]
    rfl
  rw [ensures_bind, Lower.emit, ensures_focus, Emit.inCode, ensures_focus, CodeBuffer.invokeDynamic, ensures_bind, ensures_modify,
    ensures_bind, hcaptures]
  refine (CodeBuffer.ensures_pop _ _).mono ?_ ?_
  · intro _ c _
    rw [ensures_modify, ensures_pure]
    exact ht.trans ⟨rfl, hg⟩
  · rintro fault c ⟨-, -, hshort⟩
    exact absurd hstack (Nat.not_le_of_lt hshort)

end CallSite

/-! ## References -/

/-- What is left of a reference that ends in a fault: constants, at most one number taken, and what the receiver has written if the fault is
one of its code. -/
structure Reference.Refused (r : Reference) (w : Workspace) (fault : Fault) (t : Workspace) : Prop where
  classes : t.classes = w.classes
  file : t.file = w.file.withPool t.file.pool
  pool : w.file.pool.Extends t.file.pool
  names : t.names = w.names ∨ t.names = { w.names with count := w.names.count + 1 }
  code : t.code = w.code ∨ ∃ e, r.target = .value e ∧ e.emit w.emission = .error fault t.emission

/-- The methods stay as they are, or a factory joins them. -/
inductive Workspace.Gets (w t : Workspace) : Option MethodDecl → Prop where
  | nothing : w.KeepsMethods t → Gets w t none
  | factory {factory : MethodDecl} : factory.declaring = w.names.owner → factory.access = Factory.access w.file.isInterface →
      factory.Joins w t → Gets w t (some factory)

/-- Constants, bootstrap methods and code may be added behind. -/
theorem Workspace.Gets.trans {w t u : Workspace} {factory : Option MethodDecl} (h : w.Gets t factory) (htu : t.KeepsMethods u) :
    w.Gets u factory := by
  cases h with
  | nothing hkeeps => exact .nothing (hkeeps.trans htu)
  | factory hdeclaring haccess hjoins =>
    obtain ⟨decl, hdecl, hnew, hclasses⟩ := hjoins.declared
    obtain ⟨m, hmethods, hm⟩ := hjoins.stored
    exact .factory hdeclaring haccess ⟨⟨decl, hdecl, hnew, htu.classes.trans hclasses⟩,
      ⟨m, htu.file.methods.trans hmethods, hm.mono htu.file.pool.toExtends⟩, Pool.Grows.trans hjoins.pool htu.file.pool⟩

/-- The pool has only gained, with a factory or without. -/
theorem Workspace.Gets.pool {w t : Workspace} {factory : Option MethodDecl} (h : w.Gets t factory) : w.file.pool.Gains t.file.pool := by
  cases h with
  | nothing hkeeps => exact hkeeps.file.pool
  | factory _ _ hjoins => exact hjoins.pool

namespace Lower

variable {ctx : Context} {r : Reference} {w : Workspace}

/-- A fault in which nothing was left but constants and a number. -/
theorem refused_of_gains {fault : Fault} {t : Workspace} {names : NameSupply}
    (hnames : names = w.names ∨ names = { w.names with count := w.names.count + 1 }) (ht : { w with names := names }.Gains t) :
    r.Refused w fault t where
  classes := by rw [ht.rest]; rfl
  file := by rw [ht.rest]; rfl
  pool := ht.pool.toExtends
  names := by rw [ht.rest]; exact hnames
  code := .inl (by rw [ht.rest]; rfl)

/-- A reference is bound to a factory that joins the methods, or to a member. Binding a reference on a value changes nothing. -/
theorem ends_bindReference (exact : List Param) (hw : w.file.pool.Fits) :
    Ensures (bindReference ctx r exact) w
      (fun b t => w.Gets t (if r.isCreation then some b.method else none) ∧ ∀ e, r.target = .value e → t = w)
      (fun fault t => r.Refused w fault t) := by
  unfold bindReference
  split
  · unfold bindCreation
    cases htarget : r.target with
    | value e => exact refused_of_gains (.inl rfl) (.refl w)
    | type type span =>
      rw [ensures_bind]
      refine (Factory.ends_create ctx type exact r.span hw).mono ?_ ?_
      · rintro factory t ⟨hdeclaring, haccess, hjoins⟩
        rw [ensures_bind, ensures_get, ensures_pure]
        exact ⟨.factory hdeclaring haccess hjoins, nofun⟩
      · rintro fault t ⟨names, hnames, ht⟩
        exact refused_of_gains hnames ht
  · unfold bindMember
    rw [ensures_bind, ensures_get, ensures_bind, ensures_answer]
    exact ⟨fun _ _ => ⟨.nothing (.refl w), fun _ _ => rfl⟩, fun _ _ => refused_of_gains (.inl rfl) (.refl w)⟩

/-- How a reference ends whose interface and inferred types are known. -/
theorem ends_linkReference (hreceiver : ctx.emitReceiver = Expr.emit) (f : FunctionalInterface) (inferred : List (Option JType))
    (hw : w.file.pool.Fits) :
    Ensures (linkReference ctx r f inferred) w
      (fun l t => l.factory = (if r.isCreation then some l.binding.method else none) ∧ w.Gets t l.factory)
      (fun fault t => fault.IsExhaustion ∨ r.Refused w fault t) := by
  rw [linkReference_eq, ensures_bind, ensures_get, ensures_bind, ensures_answer]
  refine ⟨fun exact _ => ?_, fun _ _ => .inr (refused_of_gains (.inl rfl) (.refl w))⟩
  rw [ensures_bind]
  refine (ends_bindReference exact hw).mono ?_ (fun _ _ h => .inr h)
  rintro b t ⟨hgets, hvalue⟩
  rw [ensures_bind]
  refine (CallSite.ends_link hreceiver r.target f b (hgets.pool.fits hw)).mono ?_ ?_
  · intro site u htu
    rw [ensures_pure]
    exact ⟨rfl, hgets.trans htu⟩
  · rintro fault u (hfull | ⟨e, htarget, hrun, hu, hpool⟩)
    · exact .inl hfull
    · rw [hvalue e htarget] at hrun hu hpool
      refine .inr ⟨?_, ?_, hpool.toExtends, .inl ?_, .inr ⟨e, htarget, hrun⟩⟩
      · rw [hu]
        rfl
      · rw [hu]
        rfl
      · rw [hu]
        rfl

/-- How a reference ends: it is left aside in a workspace that stays what it is, or becomes a call site, or is refused if no table is full. -/
theorem ends_reference (hreceiver : ctx.emitReceiver = Expr.emit) (hw : w.file.pool.Fits) :
    Ensures (reference ctx r) w
      (fun o t => match o with
        | .fallback _ => t = w
        | .linked l => l.factory = (if r.isCreation then some l.binding.method else none) ∧ w.Gets t l.factory)
      (fun fault t => fault.IsExhaustion ∨ r.Refused w fault t) := by
  unfold reference
  rw [ensures_bind, ensures_get]
  cases r.findings w.classes with
  | error reason => rfl
  | ok found =>
    obtain ⟨f, inferred⟩ := found
    dsimp only
    rw [ensures_bind]
    refine (ends_linkReference hreceiver f inferred hw).mono ?_ (fun _ _ h => h)
    intro l t hl
    rw [ensures_pure]
    exact hl

/-- A reference that is left aside changes nothing. One that ends in a fault, other than that a table is full, changes no type, no method and
no bootstrap method, adds constants behind those that were there, takes at most one number, and writes no code unless the fault is one of
its receiver. -/
theorem refuses_reference (hreceiver : ctx.emitReceiver = Expr.emit) (hpool : w.file.pool.Fits) :
    Ensures (reference ctx r) w (fun o t => ∀ reason, o = .fallback reason → t = w)
      (fun fault t => ¬ fault.IsExhaustion → r.Refused w fault t) := by
  refine (ends_reference hreceiver hpool).mono ?_ (fun _ _ h hroom => h.resolve_left hroom)
  rintro o t h reason rfl
  exact h

/-- `demo/Main` declares a method with the name that the first factory of `main` would have. -/
def sampleTaken : Workspace :=
  { sampleWorkspace with classes := sampleWorkspace.classes.register ((ClassDecl.ofClass "demo/Main").addMethods
      [{ name := "ctorRef$main$0", params := [], result := .string, access := .accStatic }]) }

/-- `String::new` there is refused when its body has been written and its number taken. -/
theorem refuses_reference_sampleTaken :
    sampleContext.emitReceiver = Expr.emit ∧ sampleTaken.file.pool.Fits ∧
      (runStep (reference sampleContext sampleCreation) sampleTaken).1 =
        .error (.defect (.alreadyDeclared "demo/Main" "ctorRef$main$0" "()Ljava/lang/String;") (some .unknown)) ∧
      (runStep (reference sampleContext sampleCreation) sampleTaken).2.names.count = 1 ∧
      Ensures (reference sampleContext sampleCreation) sampleTaken (fun o t => ∀ reason, o = .fallback reason → t = sampleTaken)
        (fun fault t => ¬ fault.IsExhaustion → sampleCreation.Refused sampleTaken fault t) := by
  have hpool : sampleTaken.file.pool.Fits := (ClassFile.fits_create "demo/Main" false {}).pool
  have hresult : (runStep (reference sampleContext sampleCreation) sampleTaken).1 =
      .error (.defect (.alreadyDeclared "demo/Main" "ctorRef$main$0" "()Ljava/lang/String;") (some .unknown)) := by
    decide +kernel
  have hcount : (runStep (reference sampleContext sampleCreation) sampleTaken).2.names.count = 1 := by
    decide +kernel
  refine ⟨rfl, hpool, hresult, hcount, refuses_reference ?_ ?_⟩
  · rfl
  · exact hpool

end Lower

end Linkage
