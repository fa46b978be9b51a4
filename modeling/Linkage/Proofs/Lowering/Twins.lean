import Linkage.Proofs.Emission.Twins
import Linkage.Proofs.Lowering.Effects
import Linkage.Proofs.Lowering.Parameters

/-!
# Lowering the same reference twice

The same reference lowered in two workspaces whose known types agree ends alike, as long as no factory that is made has a name which is
taken. What comes of it differs in indices, and in the number of the factory.
-/

namespace Linkage

open NameSupply

variable {α β : Type}

/-! ## The class file -/

namespace ClassFile

/-- The step fails for lack of room only. -/
def FailsFull (step : Step α) : Prop :=
  ∀ f, Ensures step f (fun _ _ => True) fun fault _ => fault.IsExhaustion

/-- Two steps on the class file that fail for want of room only, one after the other. -/
theorem failsFull_bind {x : Step α} {y : α → Step β} (hx : FailsFull x) (hy : ∀ a, FailsFull (y a)) : FailsFull (x >>= y) := by
  intro f
  rw [ensures_bind]
  exact (hx f).mono (fun a g _ => hy a g) (fun _ _ h => h)

/-- Doing nothing does not fail. -/
theorem failsFull_pure (a : α) : FailsFull (pure a) :=
  fun _ => trivial

/-- A step on the pool fails for want of room, if at all, when it does there. -/
theorem failsFull_inPool (step : Pool.Step α) : FailsFull (inPool step) := by
  intro f
  rw [inPool, ensures_focus]
  exact Ensures.intro (fun _ _ _ => trivial) (fun fault _ _ => by cases fault; trivial)

/-- A bootstrap method cannot be added only if the table is full. -/
theorem failsFull_addBootstrap (methodRef : UInt16) (arguments : List UInt16) : FailsFull (addBootstrap methodRef arguments) := by
  intro f
  unfold Ensures addBootstrap
  cases f.bootstraps.findIdx? (· = ⟨methodRef, arguments⟩) with
  | some n => trivial
  | none =>
    dsimp only
    split
    · trivial
    · rename_i heq
      split at heq
      · cases heq
      · cases heq
        trivial

/-- A method whose name is free is added to both class files or to neither, when its code is of the same size. -/
theorem alike_addMethod {access access' : Access} {name name' descriptor descriptor' : String} {code code' : CodeBuffer} {f g : ClassFile}
    (hf : f.Free name) (hg : g.Free name') (hsize : code.bytes.size = code'.bytes.size) :
    Alike FileFault.IsExhaustion (addMethod access name descriptor code) f (addMethod access' name' descriptor' code') g
      fun _ _ _ _ => True := by
  have hnone : ∀ {h : ClassFile} {name descriptor : String}, h.Free name → (h.findMethod? name descriptor).isSome = false := by
    intro h name descriptor hfree
    rw [Option.isSome_eq_false_iff, Option.isNone_iff_eq_none, findMethod?, Array.find?_eq_none]
    intro m hm
    simp [isMethod, (hfree m hm).2]
  have hcheck : code'.checkSize = code.checkSize := by
    unfold CodeBuffer.checkSize
    rw [hsize]
  have hrest : ∀ (access : Access) (name descriptor : String) (code : CodeBuffer), FailsFull (do
      let nameIndex ← inPool (Pool.addUtf8 name)
      let descriptorIndex ← inPool (Pool.addUtf8 descriptor)
      let attributeIndex ← inPool (Pool.addUtf8 MethodBody.attributeName)
      let body := (MethodBody.ofBuffer code).toBytes
      modify fun f => { f with methods := f.methods.push ⟨access, nameIndex, descriptorIndex, [⟨attributeIndex, body⟩]⟩ }) :=
    fun access name descriptor code => failsFull_bind (failsFull_inPool _) fun _ => failsFull_bind (failsFull_inPool _) fun _ =>
      failsFull_bind (failsFull_inPool _) fun _ _ => trivial
  unfold addMethod
  refine Alike.get_bind ?_
  simp only [hnone hf, hnone hg, Bool.false_eq_true, if_false, hcheck]
  refine Alike.answer_bind fun _ _ => ?_
  exact (Alike.of_ensures (hrest access name descriptor code _) (hrest access' name' descriptor' code' _)).mono fun _ _ _ _ _ => trivial

end ClassFile

/-! ## The workspace -/

namespace Lower

variable {w v : Workspace}

/-- Code written into both methods at hand. -/
theorem alike_emit {sized : Bool} {n m : Nat} {x y : Emit Unit} (h : Emit.Paired sized n m x y)
    (hcode : CodeBuffer.Twins sized n w.code v.code) :
    Alike Fault.IsExhaustion (emit x) w (emit y) v fun _ t _ u => CodeBuffer.Twins sized m t.code u.code :=
  (h w.emission v.emission hcode).focus (fun _ hfault => hfault) fun _ _ _ _ ht => ht

/-- Bodies of their own are of the same size. -/
theorem alike_assemble {tracing : Bool} {x y : Emit Unit} (h : Emit.Mirrored x y) :
    Alike Fault.IsExhaustion (assemble tracing x) w (assemble tracing y) v fun code _ code' _ => code.bytes.size = code'.bytes.size := by
  have hruns := h ⟨w.file.pool, .create 0 tracing⟩ ⟨v.file.pool, .create 0 tracing⟩ (.refl _)
  unfold Alike assemble at *
  cases hx : x ⟨w.file.pool, .create 0 tracing⟩ with
  | ok _ e =>
    cases hy : y ⟨v.file.pool, .create 0 tracing⟩ with
    | ok _ e' =>
      rw [hx, hy] at hruns
      exact hruns.sizes rfl
    | error fault' e' =>
      rw [hx, hy] at hruns
      exact hruns
  | error fault e =>
    cases hy : y ⟨v.file.pool, .create 0 tracing⟩ with
    | ok _ e' =>
      rw [hx, hy] at hruns
      exact hruns
    | error fault' e' =>
      rw [hx, hy] at hruns
      exact hruns

end Lower

/-! ## Factories -/

namespace Factory

variable {w v : Workspace}

/-- The enclosing type is known to both tables or to neither, and declares no method whose name is free. -/
theorem checkEnclosing_congr {t u : ClassTable} (h : t.Agrees u) {enclosing name name' descriptor descriptor' : String}
    (ht : ∀ decl, t.get? enclosing = some decl → ∀ m ∈ decl.methods, m.name ≠ name)
    (hu : ∀ decl, u.get? enclosing = some decl → ∀ m ∈ decl.methods, m.name ≠ name') :
    checkEnclosing u enclosing name' descriptor' = checkEnclosing t enclosing name descriptor := by
  have hdeclares : ∀ {decl : ClassDecl} {name descriptor : String}, (∀ m ∈ decl.methods, m.name ≠ name) →
      decl.declares name descriptor = false := by
    intro decl name descriptor hmethods
    simp only [ClassDecl.declares, List.any_eq_false, Bool.and_eq_true, decide_eq_true_eq, not_and]
    exact fun m hm hname => absurd hname (hmethods m hm)
  unfold checkEnclosing
  rcases h.get?_cases enclosing with ⟨hnone, hnone'⟩ | ⟨c, d, hc, hd, -⟩
  · rw [hnone, hnone']
  · rw [hc, hd]
    dsimp only
    rw [hdeclares (ht c hc), hdeclares (hu d hd)]
    rfl

/-- Factories whose names are free are both installed or neither. -/
theorem alike_install {factory factory' : MethodDecl} {code code' : CodeBuffer} (span : Span) (hclasses : w.classes.Agrees v.classes)
    (hdeclaring : factory.declaring = w.names.owner) (hdeclaring' : factory'.declaring = v.names.owner)
    (howner : v.names.owner = w.names.owner) (hw : w.Free factory.name) (hv : v.Free factory'.name)
    (hsize : code.bytes.size = code'.bytes.size) :
    Alike Fault.IsExhaustion (install factory code span) w (install factory' code' span) v fun _ _ _ _ => True := by
  have hsame : factory'.declaring = factory.declaring := by rw [hdeclaring', hdeclaring, howner]
  have hcheck : checkEnclosing v.classes factory.declaring factory'.name factory'.descriptor =
      checkEnclosing w.classes factory.declaring factory.name factory.descriptor :=
    checkEnclosing_congr hclasses (hdeclaring ▸ hw.declared) (hsame ▸ hdeclaring' ▸ hv.declared)
  have hfile : Alike Fault.IsExhaustion
      (Lower.inFile (ClassFile.addMethod factory.access factory.name factory.descriptor code) (installFault factory.declaring span)) w
      (Lower.inFile (ClassFile.addMethod factory'.access factory'.name factory'.descriptor code') (installFault factory.declaring span)) v
      fun _ _ _ _ => True := by
    refine Alike.focus (ClassFile.alike_addMethod hw.stored hv.stored hsize) ?_ fun _ _ _ _ _ => trivial
    intro fault hfault
    cases fault with
    | duplicateMethod name descriptor => exact hfault
    | pool fault => exact hfault
    | code fault => exact hfault
    | tooManyBootstraps => exact hfault
  unfold install
  refine Alike.get_bind ?_
  rw [hsame, hcheck]
  exact Alike.answer_bind fun _ _ => hfile.bind fun _ _ _ _ _ => trivial

/-- A name is taken in both runs, each time the next one. -/
theorem alike_takeName (method : Option String) (w v : Workspace) :
    Alike Fault.IsExhaustion (takeName method) w (takeName method) v fun name t name' u =>
      name = factoryName method w.names.count ∧ t = { w with names := { w.names with count := w.names.count + 1 } } ∧
        name' = factoryName method v.names.count ∧ u = { v with names := { v.names with count := v.names.count + 1 } } :=
  ⟨rfl, rfl, rfl, rfl⟩

/-- Factories for the same target are both made or neither, when the next names of both workspaces are free. -/
theorem alike_create {ctx : Context} (hpolicy : ctx.policy = .language) (target : JType) (exact : List Param) (span : Span)
    (h : w.Agrees v) (hw : w.Free (factoryName ctx.method w.names.count)) (hv : v.Free (factoryName ctx.method v.names.count))
    (hroom : w.file.Room 0 (6 * exact.length + 11)) (hroom' : v.file.Room 0 (6 * exact.length + 11)) :
    Alike Fault.IsExhaustion (create ctx target exact span) w (create ctx target exact span) v fun _ _ _ _ => True := by
  have hbody : Emit.Mirrored (body (w.scope ctx.policy) (w.classes.canonicalType target) exact span)
      (body (v.scope ctx.policy) (v.classes.canonicalType target) exact span) := by
    rw [Workspace.scope, Workspace.scope, hpolicy, h.owner, ← h.classes.sameHierarchy.canonicalType]
    exact mirrored_body h.classes w.names.owner _ exact span
  have hleft := Lower.spends_assemble ctx.settings.tracing (takes_body (w.scope ctx.policy) (w.classes.canonicalType target) exact span) w
    (hroom.mono (Nat.le_refl 0) (by omega))
  have hright := Lower.spends_assemble ctx.settings.tracing (takes_body (v.scope ctx.policy) (v.classes.canonicalType target) exact span) v
    (hroom'.mono (Nat.le_refl 0) (by omega))
  unfold create
  refine Alike.get_bind ?_
  refine Alike.bind ((Lower.alike_assemble hbody).and_ensures hleft hright) ?_
  rintro code w₁ code' v₁ ⟨hsize, hw₁, hv₁⟩
  have h₁ : w₁.Agrees v₁ := hw₁.agrees.symm.trans (h.trans hv₁.agrees)
  have hfree := hw₁.free hw
  have hfree' := hv₁.free hv
  rw [← hw₁.names] at hfree
  rw [← hv₁.names] at hfree'
  refine Alike.bind (alike_takeName ctx.method w₁ v₁) ?_
  rintro _ _ _ _ ⟨rfl, rfl, rfl, rfl⟩
  refine Alike.bind (alike_install span h₁.classes ?_ ?_ h₁.owner ⟨hfree.declared, hfree.stored⟩ ⟨hfree'.declared, hfree'.stored⟩ hsize)
    fun _ _ _ _ _ => trivial
  · exact (congrArg NameSupply.owner hw₁.names).symm
  · exact (congrArg NameSupply.owner hv₁.names).symm

/-- The next factory of a workspace that agrees with another has the number of its own, and is else the same. -/
theorem next_of_agrees (h : w.Agrees v) (ctx : Context) (target : JType) (exact : List Param) :
    next ctx target exact v = { next ctx target exact w with name := factoryName ctx.method v.names.count } := by
  simp only [next, h.classes.sameHierarchy.canonicalType, h.isInterface, h.owner]

end Factory

/-! ## References -/

/-- The binding to a method that has another name. -/
def Binding.renamed (b : Binding) (name : String) : Binding :=
  { b with method := { b.method with name := name } }

/-- The name of the factory has no part in whether a receiver is captured. -/
theorem Binding.captured?_renamed (b : Binding) (name : String) (target : Target) :
    (b.renamed name).captured? target = b.captured? target := by
  cases target <;> rfl

/-- The bindings are the same, or they bind factories, made in the method, that differ in their numbers. -/
inductive Binding.Matches (method : Option String) : Binding → Binding → Prop where
  | member {b : Binding} : b.isCreation = false → Matches method b b
  | factory {b : Binding} {n : UInt32} (n' : UInt32) : b.isCreation = true → b.method.name = factoryName method n →
      Matches method b (b.renamed (factoryName method n'))

/-- A binding that matches is the same binding with another name. -/
theorem Binding.Matches.eq_renamed {method : Option String} {b b' : Binding} (h : b.Matches method b') : b' = b.renamed b'.method.name := by
  cases h <;> rfl

namespace Lower

variable {w v : Workspace} {ctx : Context} {r : Reference}

theorem alike_bindReference (hpolicy : ctx.policy = .language) (hmember : ¬ IsFactoryName r.member) {exact : List Param} (h : w.Agrees v)
    (hw : w.Free (factoryName ctx.method w.names.count)) (hv : v.Free (factoryName ctx.method v.names.count))
    (hroom : w.file.Room 0 (6 * exact.length + 11)) (hroom' : v.file.Room 0 (6 * exact.length + 11)) :
    Alike Fault.IsExhaustion (bindReference ctx r exact) w (bindReference ctx r exact) v fun b _ b' _ => b.Matches ctx.method b' := by
  unfold bindReference
  split
  · unfold bindCreation
    cases r.target with
    | value e => exact .throw _ _ _ _ _
    | type type span =>
      refine Alike.bind ((Factory.alike_create hpolicy type exact r.span h hw hv hroom hroom').and_ensures
        (Factory.after_create ctx type exact r.span hroom) (Factory.after_create ctx type exact r.span hroom')) ?_
      rintro _ t _ u ⟨-, ⟨rfl, ht⟩, ⟨rfl, hu⟩⟩
      refine Alike.get_bind ?_
      have htu : t.Agrees u := ht.toAgrees.symm.trans (h.trans hu.toAgrees)
      dsimp only
      rw [htu.name, htu.isInterface, Factory.next_of_agrees h]
      exact .factory _ rfl rfl
  · unfold bindMember
    refine Alike.get_bind ?_
    have hresolve : (v.scope ctx.policy).resolve r exact = (w.scope ctx.policy).resolve r exact := by
      rw [Workspace.scope, Workspace.scope, hpolicy, h.owner]
      exact (h.classes.resolve w.names.owner hmember exact).symm
    rw [hresolve, ← h.classes.sameHierarchy.canonicalType, ← h.classes.sameHierarchy.isInterface]
    exact Alike.answer_bind fun method _ => .member rfl

end Lower

namespace CallSite

open ClassFile

variable {w v : Workspace} {ctx : Context}

/-- The constants of a call site cannot be added only for want of room. -/
theorem failsFull_addConstants (bootstrap : BootstrapMethod) (ownerIsInterface : Bool) (c : CallSite) :
    FailsFull (addConstants bootstrap ownerIsInterface c) := by
  intro f
  unfold addConstants
  rw [ensures_bind, ensures_get]
  exact failsFull_bind (failsFull_inPool _) (fun _ => failsFull_bind (failsFull_inPool _) fun _ =>
    failsFull_bind (failsFull_inPool _) fun _ => failsFull_bind (failsFull_inPool _) fun _ =>
    failsFull_bind (failsFull_addBootstrap _ _) fun _ => failsFull_bind (failsFull_inPool _) fun _ => failsFull_pure _) f

/-- The constants of sites that name different methods. -/
theorem alike_addConstants (bootstrap : BootstrapMethod) (ownerIsInterface : Bool) (c : CallSite) (name : String) (f g : ClassFile) :
    Alike FileFault.IsExhaustion (addConstants bootstrap ownerIsInterface c) f
      (addConstants bootstrap ownerIsInterface { c with implementationName := name }) g fun site _ site' _ =>
        site.capturesReceiver = c.capturesReceiver ∧ site' =
          { site with implementationName := name, bootstrapIndex := site'.bootstrapIndex, constantIndex := site'.constantIndex } := by
  have hruns := Alike.of_ensures (failsFull_addConstants bootstrap ownerIsInterface c f)
    (failsFull_addConstants bootstrap ownerIsInterface { c with implementationName := name } g)
  refine (hruns.and_ensures (ensures_addConstants _ _ _ _) (ensures_addConstants _ _ _ _)).mono ?_
  rintro site _ site' _ ⟨-, hsite, hsite'⟩
  rw [hsite]
  exact ⟨rfl, hsite'⟩

/-- The site of a binding to a method of another name, in known types that agree. -/
theorem describe_renamed {t u : ClassTable} (h : t.Agrees u) (target : Target) (f : FunctionalInterface) (b : Binding) (name : String) :
    describe u target f (b.renamed name) = { describe t target f b with implementationName := name } := by
  simp only [describe, Binding.captured?_renamed, h.sameHierarchy.canonicalType]
  rfl

/-- The receiver that is captured is there when the call site takes it. -/
theorem alike_writeReceiver (hreceiver : ctx.emitReceiver = Expr.emit) (target : Target) (b : Binding) (w v : Workspace) :
    Alike Fault.IsExhaustion (writeReceiver ctx b target) w (writeReceiver ctx b target) v fun _ t _ u =>
      CodeBuffer.Twins false (if (b.captured? target).isSome then 1 else 0) t.code u.code := by
  unfold writeReceiver
  cases b.captured? target with
  | none => exact .unsized w.code v.code
  | some e =>
    dsimp only
    rw [hreceiver]
    exact Lower.alike_emit (e.paired_emit 0) (.unsized w.code v.code)

/-- Call sites for bindings that differ in the name of the method differ in that name and in their indices. -/
theorem alike_link (hreceiver : ctx.emitReceiver = Expr.emit) (target : Target) (f : FunctionalInterface) (b : Binding) (name : String)
    (h : w.classes.Agrees v.classes) :
    Alike Fault.IsExhaustion (link ctx target f b) w (link ctx target f (b.renamed name)) v fun site _ site' _ => site' =
      { site with implementationName := name, bootstrapIndex := site'.bootstrapIndex, constantIndex := site'.constantIndex } := by
  have hwrite : writeReceiver ctx (b.renamed name) target = writeReceiver ctx b target := by
    unfold writeReceiver
    rw [Binding.captured?_renamed]
  rw [link_eq, link_eq, hwrite]
  refine Alike.get_bind ((alike_writeReceiver hreceiver target b w v).bind ?_)
  intro _ t _ u hcode
  rw [describe_renamed h]
  have hfile : Alike Fault.IsExhaustion
      (Lower.inFile (addConstants ctx.settings.bootstrap b.ownerIsInterface (describe w.classes target f b))) t
      (Lower.inFile (addConstants ctx.settings.bootstrap b.ownerIsInterface
        { describe w.classes target f b with implementationName := name })) u
      fun site t site' u => (site.capturesReceiver = (b.captured? target).isSome ∧ site' =
        { site with implementationName := name, bootstrapIndex := site'.bootstrapIndex, constantIndex := site'.constantIndex }) ∧
        CodeBuffer.Twins false (if (b.captured? target).isSome then 1 else 0) t.code u.code :=
    (alike_addConstants _ _ _ _ _ _).focus (fun _ hfault => hfault) fun _ _ _ _ hsites => ⟨hsites, hcode⟩
  refine hfile.bind ?_
  rintro site t site' u ⟨⟨hcaptures, hsite'⟩, hcode⟩
  have hcaptures' : site'.capturesReceiver = site.capturesReceiver := by rw [hsite']
  rw [hcaptures', hcaptures]
  exact (Lower.alike_emit (Emit.paired_inCode (CodeBuffer.paired_invokeDynamic site.constantIndex site'.constantIndex _ _
    (.inr (Nat.le_refl _)))) hcode).bind fun _ _ _ _ _ => hsite'

end CallSite

end Linkage
