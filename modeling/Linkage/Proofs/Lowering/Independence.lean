import Linkage.Proofs.Lowering.Run
import Linkage.Proofs.Lowering.Twins

/-!
# References do not depend on earlier ones

A reference that was lowered before, in whatever way it ended, has no influence on what becomes of the next: it is left to the general way
for the same reason, ends in the same fault, or becomes the same call site, but for indices and for the number of its factory
(`Lower.Matches`). The enclosing type must have no methods that are named like factories. That the class file has no such method is not
enough when the index of a method's name lies beyond the pool: the constants of the earlier reference can then give the method the name of
the factory.
-/

namespace Linkage

open NameSupply

/-! ## What matches -/

/-- The references were bound to the same method and became the same call site, but for its indices; or factories, made in the same method,
differ in their numbers too. -/
inductive Linked.Matches (method : Option String) : Linked → Linked → Prop where
  | member {l : Linked} (i j : UInt16) : l.factory = none →
      Matches method l { l with site := { l.site with bootstrapIndex := i, constantIndex := j } }
  | factory {l : Linked} {n : UInt32} (n' : UInt32) (i j : UInt16) : l.factory = some l.binding.method →
      l.binding.method.name = factoryName method n → l.site.implementationName = factoryName method n →
      Matches method l {
        binding := l.binding.renamed (factoryName method n')
        site := { l.site with implementationName := factoryName method n', bootstrapIndex := i, constantIndex := j }
        factory := some (l.binding.renamed (factoryName method n')).method }

/-- The references were left aside for the same reason, or their call sites match. -/
inductive Outcome.Matches (method : Option String) : Outcome → Outcome → Prop where
  | fallback (reason : FallbackReason) : Matches method (.fallback reason) (.fallback reason)
  | linked {l l' : Linked} : l.Matches method l' → Matches method (.linked l) (.linked l')

/-- The references ended in outcomes that match, or in the same fault. -/
inductive Lower.Matches (method : Option String) : Except Fault Outcome → Except Fault Outcome → Prop where
  | outcome {o o' : Outcome} : o.Matches method o' → Matches method (.ok o) (.ok o')
  | fault (fault : Fault) : Matches method (.error fault) (.error fault)

/-! ## Names of factories -/

/-- No method of the enclosing type and none of the class file has the name of a factory. -/
structure Workspace.LacksFactories (w : Workspace) : Prop where
  declared : ∀ decl ∈ w.classes.get? w.names.owner, ∀ m ∈ decl.methods, ¬ IsFactoryName m.name
  stored : ∀ m ∈ w.file.methods, ∀ name ∈ w.file.pool.utf8? m.nameIndex, ¬ IsFactoryName name

/-- The index of a method's name is one of the pool. -/
def ClassFile.NamesInPool (f : ClassFile) : Prop :=
  ∀ m ∈ f.methods, m.nameIndex.toNat ≤ f.pool.entries.size

/-- Where there are no factories, the name of any is free. -/
theorem Workspace.LacksFactories.free {w : Workspace} (h : w.LacksFactories) (hnames : w.file.NamesInPool) (method : Option String)
    (n : UInt32) : w.Free (factoryName method n) := by
  have hname := isFactoryName_factoryName method n
  refine ⟨fun decl hdecl m hm heq => h.declared decl hdecl m hm ?_, fun m hm => ⟨hnames m hm, fun heq => h.stored m hm _ heq hname⟩⟩
  rw [heq]
  exact hname

/-- The next name stays free when another reference has been lowered: the factory that was made for it has the number before. -/
theorem Workspace.After.free_next {method method' : Option String} {j k : Nat} {w t : Workspace} (h : w.After method j k t)
    (hw : w.LacksFactories) (hnames : w.file.NamesInPool) : t.Free (factoryName method' t.names.count) := by
  refine h.free _ (hw.free hnames method' _) fun hcount hname => ?_
  have hnumber := number_eq_of_factoryName_eq hname
  rw [hcount] at hnumber
  simp at hnumber

namespace Lower

variable {ctx ctx₁ ctx₂ : Context} {r r₁ r₂ : Reference} {w v : Workspace}

/-! ## One reference, lowered twice -/

/-- Bindings that match become call sites that match. -/
theorem alike_linkBound (hreceiver : ctx.emitReceiver = Expr.emit) (f : FunctionalInterface) {b b' : Binding}
    (hb : b.Matches ctx.method b') (hcreation : b.isCreation = r.isCreation) (h : w.classes.Agrees v.classes) :
    Alike Fault.IsExhaustion
      (do return Linked.mk b (← CallSite.link ctx r.target f b) (if r.isCreation then some b.method else none)) w
      (do return Linked.mk b' (← CallSite.link ctx r.target f b') (if r.isCreation then some b'.method else none)) v
      fun l _ l' _ => l.Matches ctx.method l' := by
  have hlink := (CallSite.alike_link hreceiver r.target f b b'.method.name h).and_ensures (CallSite.ensures_link ctx r.target f b w)
    (CallSite.ensures_link ctx r.target f (b.renamed b'.method.name) v)
  rw [← hb.eq_renamed] at hlink
  refine hlink.bind ?_
  rintro site _ site' _ ⟨hsite', hsite, -⟩
  have hname : site.implementationName = b.method.name := by
    rw [hsite]
    rfl
  rw [← hcreation, hsite']
  cases hb with
  | member hmember =>
    rw [hmember, ← hname]
    exact .member _ _ rfl
  | factory n' hfactory hnamed =>
    rw [hfactory]
    exact .factory n' _ _ rfl hnamed (hname.trans hnamed)

/-- Two runs link a reference alike, if the types agree and both have the next name free. -/
theorem alike_linkReference (hreceiver : ctx.emitReceiver = Expr.emit) (hpolicy : ctx.policy = .language)
    (hmember : ¬ IsFactoryName r.member) {f : FunctionalInterface} {inferred : List (Option JType)}
    (hfindings : r.findings w.classes = .ok (f, inferred)) (h : w.Agrees v) (hw : w.Free (factoryName ctx.method w.names.count))
    (hv : v.Free (factoryName ctx.method v.names.count)) (hroom : w.file.Room 1 r.demand) (hroom' : v.file.Room 1 r.demand) :
    Alike Fault.IsExhaustion (linkReference ctx r f inferred) w (linkReference ctx r f inferred) v
      fun l _ l' _ => l.Matches ctx.method l' := by
  rw [linkReference_eq]
  refine Alike.get_bind ?_
  rw [← h.classes.exactParams]
  refine Alike.answer_bind fun exact hexact => ?_
  rw [Reference.demand_eq hfindings hexact] at hroom hroom'
  have hbound := hroom.mono (Nat.zero_le 1) (Nat.le_add_right _ _)
  have hbound' := hroom'.mono (Nat.zero_le 1) (Nat.le_add_right _ _)
  refine Alike.bind ((alike_bindReference hpolicy hmember h hw hv hbound hbound').and_ensures (after_bindReference hbound)
    (after_bindReference hbound')) ?_
  rintro b t b' u ⟨hb, ht, hu⟩
  have htu : t.Agrees u := ht.1.toAgrees.symm.trans (h.trans hu.1.toAgrees)
  exact alike_linkBound hreceiver f hb ht.2 htu.classes

/-- The reference ends alike in workspaces that agree, when the next names of both are free. -/
theorem alike_checkedReference (hreceiver : ctx.emitReceiver = Expr.emit) (hpolicy : ctx.policy = .language)
    (hmember : ¬ IsFactoryName r.member) (h : w.Agrees v) (hw : w.Free (factoryName ctx.method w.names.count))
    (hv : v.Free (factoryName ctx.method v.names.count)) (hroom : w.file.Room 1 r.demand) (hroom' : v.file.Room 1 r.demand) :
    Alike Fault.IsExhaustion (checkedReference ctx r) w (checkedReference ctx r) v fun o _ o' _ => o.Matches ctx.method o' := by
  have hcheck : checkContext ctx v = checkContext ctx w := by
    unfold checkContext
    rw [h.name, h.owner]
  unfold checkedReference
  refine Alike.get_bind ?_
  rw [hcheck]
  refine Alike.answer_bind fun _ _ => ?_
  unfold reference
  refine Alike.get_bind ?_
  rw [← h.classes.findings]
  cases hfindings : r.findings w.classes with
  | error reason => exact .fallback reason
  | ok found =>
    obtain ⟨f, inferred⟩ := found
    exact (alike_linkReference hreceiver hpolicy hmember hfindings h hw hv hroom hroom').bind fun _ _ _ _ hl => .linked hl

/-- A reference leaves behind what lowering it may, however it ends. -/
theorem after_checkedReference (hreceiver : ctx.emitReceiver = Expr.emit) (hroom : w.file.Room 1 r.demand) :
    Ensures (checkedReference ctx r) w (fun _ t => w.After ctx.method 1 r.demand t)
      (fun fault t => ¬ fault.IsExhaustion ∧ w.After ctx.method 1 r.demand t) := by
  unfold checkedReference
  rw [ensures_bind, ensures_get, ensures_bind, ensures_answer]
  refine ⟨fun _ _ => after_reference hreceiver hroom, fun fault hfault => ⟨?_, ?_⟩⟩
  · unfold checkContext at hfault
    split at hfault
    · cases hfault
      exact id
    · split at hfault
      · cases hfault
      · cases hfault
        exact id
  · exact ((Workspace.Keeps.refl w).mono (Nat.zero_le 1) (Nat.zero_le _)).after ctx.method

/-! ## One reference after another -/

/-- What becomes of a reference is the same whether or not another was lowered before it, if the enclosing type has no methods with names
of factories and the class file has room for both. -/
theorem matches_checkedReference (hreceiver₁ : ctx₁.emitReceiver = Expr.emit) (hreceiver₂ : ctx₂.emitReceiver = Expr.emit)
    (hpolicy : ctx₂.policy = .language) (hw : w.LacksFactories) (hnames : w.file.NamesInPool) (hmember : ¬ IsFactoryName r₂.member)
    (hroom : w.file.Room 2 (r₁.demand + r₂.demand)) :
    Matches ctx₂.method (runStep (checkedReference ctx₂ r₂) w).1
      (runStep (checkedReference ctx₂ r₂) (runStep (checkedReference ctx₁ r₁) w).2).1 := by
  have hruns₁ := after_checkedReference (r := r₁) hreceiver₁ (hroom.mono (by decide) (Nat.le_add_right _ _))
  have hafter := (hruns₁.mono (fun _ _ h => h) (fun _ _ h => h.2)).snd_runStep
  generalize (runStep (checkedReference ctx₁ r₁) w).2 = v at hafter ⊢
  have hroom₂ : w.file.Room 1 r₂.demand := hroom.mono (by decide) (Nat.le_add_left _ _)
  have hroom₂' : v.file.Room 1 r₂.demand := hroom.rest hafter.bootstraps hafter.pool
  have halike := alike_checkedReference hreceiver₂ hpolicy hmember hafter.toAgrees (hw.free hnames _ _) (hafter.free_next hw hnames)
    hroom₂ hroom₂'
  have hruns₂ : ∀ {t : Workspace}, t.file.Room 1 r₂.demand →
      Ensures (checkedReference ctx₂ r₂) t (fun _ _ => True) fun fault _ => ¬ fault.IsExhaustion := fun ht =>
    (after_checkedReference hreceiver₂ ht).mono (fun _ _ _ => trivial) (fun _ _ h => h.1)
  unfold runStep
  rcases halike.ends (hruns₂ hroom₂) (hruns₂ hroom₂') with ⟨o, s, o', s', hrun, hrun', ho⟩ | ⟨fault, s, s', hrun, hrun'⟩
  · rw [hrun, hrun']
    exact .outcome ho
  · rw [hrun, hrun']
    exact .fault fault

/-! ## Two references in `demo/Main` -/

/-- The class file of `demo/Main`, with the functional interfaces `demo/Maker`, which makes an object, and `demo/Sizer`, which gives a
string. -/
def sampleWorkspace : Workspace where
  classes := ClassTable.platform.registerAll [.ofClass "demo/Main",
    (ClassDecl.ofInterface "demo/Maker").addMethods
      [{ name := "make", params := [], result := .object, access := .accPublic ||| .accAbstract }],
    (ClassDecl.ofInterface "demo/Sizer").addMethods
      [{ name := "size", params := [], result := .string, access := .accPublic ||| .accAbstract }]]
  names := ⟨"demo/Main", 0⟩
  file := .create "demo/Main" false {}
  code := {}

/-- In the method `main`. -/
def sampleContext : Context :=
  ⟨{}, some "main", .language, Expr.emit⟩

/-- `String::new` for `demo/Maker`. -/
def sampleCreation : Reference :=
  ⟨.type .string .unknown, "new", some (.ofInterface "demo/Maker"), some [], .unknown⟩

/-- `String::new` twice: the second becomes what it would have become at first, but for the number of the factory. -/
theorem matches_checkedReference_sample :
    sampleWorkspace.LacksFactories ∧ sampleWorkspace.file.NamesInPool ∧ ¬ IsFactoryName sampleCreation.member ∧
      sampleWorkspace.file.Room 2 (sampleCreation.demand + sampleCreation.demand) ∧
      Matches sampleContext.method (runStep (checkedReference sampleContext sampleCreation) sampleWorkspace).1
        (runStep (checkedReference sampleContext sampleCreation)
          (runStep (checkedReference sampleContext sampleCreation) sampleWorkspace).2).1 := by
  have hfactories : sampleWorkspace.LacksFactories := ⟨by decide +kernel, nofun⟩
  have hnames : sampleWorkspace.file.NamesInPool := nofun
  have hmember : ¬ IsFactoryName sampleCreation.member := by decide +kernel
  have hroom : sampleWorkspace.file.Room 2 (sampleCreation.demand + sampleCreation.demand) := ⟨by decide +kernel, by decide +kernel⟩
  exact ⟨hfactories, hnames, hmember, hroom, matches_checkedReference rfl rfl rfl hfactories hnames hmember hroom⟩

/-- The same class file with a method whose name would be the first constant of the pool, which is empty. -/
def sampleStrayMethod : Workspace :=
  { sampleWorkspace with file := { sampleWorkspace.file with methods := #[⟨.accPublic, 1, 3, []⟩] } }

/-- `"ctorRef$main$0"::toUpperCase` for `demo/Sizer`, which makes the name of the first factory the first constant of the pool. -/
def sampleNaming : Reference :=
  ⟨.value (.literal (.text "ctorRef$main$0") .unknown), "toUpperCase", some (.ofInterface "demo/Sizer"), some [], .unknown⟩

/-- A method that has no name as yet can be given the name of a factory by the constants of another reference, and the factory is then
taken to be there already. -/
theorem not_matches_checkedReference_strayMethod :
    sampleStrayMethod.LacksFactories ∧ ¬ IsFactoryName sampleCreation.member ∧
      sampleStrayMethod.file.Room 2 (sampleNaming.demand + sampleCreation.demand) ∧
      ¬ Matches sampleContext.method (runStep (checkedReference sampleContext sampleCreation) sampleStrayMethod).1
        (runStep (checkedReference sampleContext sampleCreation)
          (runStep (checkedReference sampleContext sampleNaming) sampleStrayMethod).2).1 := by
  have hlinked : (runStep (checkedReference sampleContext sampleCreation) sampleStrayMethod).1.isOk = true := by decide +kernel
  have hfault : (runStep (checkedReference sampleContext sampleCreation)
      (runStep (checkedReference sampleContext sampleNaming) sampleStrayMethod).2).1.isOk = false := by
    decide +kernel
  refine ⟨⟨by decide +kernel, by decide +kernel⟩, by decide +kernel, ⟨by decide +kernel, by decide +kernel⟩, ?_⟩
  generalize (runStep (checkedReference sampleContext sampleCreation) sampleStrayMethod).1 = first at hlinked ⊢
  generalize (runStep (checkedReference sampleContext sampleCreation)
    (runStep (checkedReference sampleContext sampleNaming) sampleStrayMethod).2).1 = second at hfault ⊢
  intro hmatches
  cases hmatches with
  | outcome h => cases hfault
  | fault fault => cases hlinked

end Lower

end Linkage
