import Linkage.Proofs.Emission.Settling
import Linkage.Proofs.Lowering.CallSite

/-!
# Call sites that are linked again

The constants and the bootstrap method of a call site are added once: in every class file that extends the one in which the site was
linked, linking it again finds them all and adds nothing (`CallSite.link_again`).
-/

namespace Linkage

/-- A step on a table that has nothing left to do runs to its end there. -/
theorem Ensures.eq_ok {ε σ α : Type} {step : EStateM ε σ α} {a : α} {u : σ}
    (h : Ensures step u (fun b v => b = a ∧ id v = id u) fun _ v => False ∧ id v = id u) : step u = .ok a u := by
  unfold Ensures at h
  split at h
  · rename_i b v hrun
    obtain ⟨rfl, rfl⟩ := h
    exact hrun
  · exact h.1.elim

/-- A call site finds what it captures on the stack. -/
theorem CodeBuffer.ensures_invokeDynamic_of_le (index : UInt16) {captured : Nat} (result : StackType) {b : CodeBuffer}
    (h : captured ≤ b.stack.length) : Ensures (invokeDynamic index captured result) b (fun _ _ => True) fun _ _ => False := by
  unfold invokeDynamic
  rw [ensures_bind, ensures_modify, ensures_bind]
  refine (ensures_pop captured _).mono (fun _ _ _ => trivial) ?_
  rintro _ _ ⟨-, -, hlt⟩
  exact Nat.not_lt.mpr h hlt

namespace ClassFile

variable {α β : Type} {f g h : ClassFile}

/-- The second class file begins with the constants and bootstrap methods of the first, and is of the same sort. -/
structure Extends (f g : ClassFile) : Prop where
  pool : f.pool.Extends g.pool
  bootstraps : f.bootstraps.toList <+: g.bootstraps.toList
  isInterface : g.isInterface = f.isInterface

/-- A class file extends itself. -/
theorem Extends.refl (f : ClassFile) : f.Extends f :=
  ⟨.refl _, List.prefix_refl _, rfl⟩

/-- Extending goes on. -/
theorem Extends.trans (hfg : f.Extends g) (hgh : g.Extends h) : f.Extends h :=
  ⟨hfg.pool.trans hgh.pool, hfg.bootstraps.trans hgh.bootstraps, hgh.isInterface.trans hfg.isInterface⟩

/-- A class file that has grown extends what it was. -/
theorem Grows.toExtends (hfg : f.Grows g) : f.Extends g :=
  ⟨hfg.pool, hfg.bootstraps, hfg.header.2.1⟩

/-- A step on a class file that finds what it has added in every later class file. -/
abbrev Settles (step : Step α) : Prop :=
  Linkage.Settles id Extends (fun _ => False) step

/-- Two steps on the class file, one after the other. -/
theorem Settles.bind {x : Step α} {k : α → Step β} (hx : Settles x) (hk : ∀ a, Settles (k a)) : Settles (x >>= k) :=
  Linkage.Settles.bind (R := Extends) (fun _ _ _ => Extends.trans) hx hk

/-- A step on the pool finds in the class file what it finds there. -/
theorem settles_inPool {step : Pool.Step α} (h : Pool.Settles step) : Settles (inPool step) :=
  Linkage.Settles.focus (R := Pool.Extends) h (fun _ _ hp => ⟨hp, List.prefix_refl _, rfl⟩) (fun _ _ _ hu => hu.pool) fun _ => rfl

/-- A step that looks at the sort of a class file, which stays what it is. -/
theorem settles_get {k : ClassFile → Step α} (hk : ∀ f, Settles (k f)) (hsame : ∀ f g, g.isInterface = f.isInterface → k g = k f) :
    Settles (get >>= k) := by
  intro f
  refine (hk f f).mono fun a g hfg hagain u hu => ?_
  rw [ensures_bind, ensures_get, hsame f u (hu.isInterface.trans hfg.isInterface)]
  exact hagain u hu

/-- A bootstrap method that stands in a class file is found at the same place in every extension. -/
theorem addBootstrap_eq_ok (hfg : f.Extends g) {methodRef : UInt16} {arguments : List UInt16} {i : Nat}
    (hi : f.bootstraps.findIdx? (· = ⟨methodRef, arguments⟩) = some i) : addBootstrap methodRef arguments g = .ok i.toUInt16 g := by
  unfold addBootstrap
  rw [findIdx?_of_extended hfg.bootstraps hi]

/-- A bootstrap method that was added is found the next time. -/
theorem settles_addBootstrap (methodRef : UInt16) (arguments : List UInt16) : Settles (addBootstrap methodRef arguments) := by
  have hagain : ∀ {f : ClassFile} {i : Nat}, f.bootstraps.findIdx? (· = ⟨methodRef, arguments⟩) = some i → ∀ g, f.Extends g →
      Ensures (addBootstrap methodRef arguments) g (fun b v => b = i.toUInt16 ∧ v = g) fun _ v => False ∧ v = g := by
    intro f i hi g hg
    unfold Ensures
    rw [addBootstrap_eq_ok hg hi]
    exact ⟨rfl, rfl⟩
  intro f
  unfold Moves Ensures
  cases hfind : f.bootstraps.findIdx? (· = ⟨methodRef, arguments⟩) with
  | some i =>
    rw [addBootstrap_eq_ok (.refl f) hfind]
    exact ⟨.refl f, hagain hfind⟩
  | none =>
    have hplace : (f.bootstraps.push ⟨methodRef, arguments⟩).findIdx? (· = ⟨methodRef, arguments⟩) = some f.bootstraps.size := by
      rw [Array.findIdx?_push, hfind]
      simp
    unfold addBootstrap
    rw [hfind]
    by_cases hroom : f.bootstraps.size < maxBootstraps
    · simp only [if_pos hroom]
      refine ⟨⟨.refl _, ?_, rfl⟩, hagain (f := { f with bootstraps := f.bootstraps.push ⟨methodRef, arguments⟩ }) hplace⟩
      simp
    · simp only [if_neg hroom]
      exact .refl f

end ClassFile

namespace CallSite

/-! ## The constants of a call site -/

/-- Adds the bootstrap method of a call site, with the constants that it names. -/
def addBootstrapMethod (bootstrap : BootstrapMethod) (ownerIsInterface : Bool) (c : CallSite) : ClassFile.Step UInt16 := do
  let inInterface := (← get).isInterface
  let erased ← ClassFile.inPool (Pool.addMethodType c.erasedDescriptor)
  let implementation ← ClassFile.inPool
    (Pool.addMethodHandle c.invocation.number c.owner c.implementationName c.implementationDescriptor ownerIsInterface)
  let instantiated ← ClassFile.inPool (Pool.addMethodType c.instantiatedDescriptor)
  let handle ← ClassFile.inPool
    (Pool.addMethodHandle bootstrapHandleKind bootstrap.owner bootstrap.name bootstrap.descriptor inInterface)
  ClassFile.addBootstrap handle [erased, implementation, instantiated]

/-- The constants of a call site, with the bootstrap method as a step of its own. -/
theorem addConstants_eq (bootstrap : BootstrapMethod) (ownerIsInterface : Bool) (c : CallSite) :
    addConstants bootstrap ownerIsInterface c = (do
      let bootstrapIndex ← addBootstrapMethod bootstrap ownerIsInterface c
      let constantIndex ← ClassFile.inPool (Pool.addInvokeDynamic bootstrapIndex c.name c.descriptor)
      return { c with bootstrapIndex := bootstrapIndex, constantIndex := constantIndex }) := by
  simp only [addConstants, addBootstrapMethod, bind_assoc]

/-- The bootstrap method of a call site is found with its handle and arguments the next time. -/
theorem settles_addBootstrapMethod (bootstrap : BootstrapMethod) (ownerIsInterface : Bool) (c : CallSite) :
    ClassFile.Settles (addBootstrapMethod bootstrap ownerIsInterface c) := by
  unfold addBootstrapMethod
  refine ClassFile.settles_get (fun _ => ?_) fun f g h => by rw [h]
  refine (ClassFile.settles_inPool (Pool.settles_addMethodType _)).bind fun _ => ?_
  refine (ClassFile.settles_inPool (Pool.settles_addMethodHandle _ _ _ _ _)).bind fun _ => ?_
  refine (ClassFile.settles_inPool (Pool.settles_addMethodType _)).bind fun _ => ?_
  exact (ClassFile.settles_inPool (Pool.settles_addMethodHandle _ _ _ _ _)).bind fun _ => ClassFile.settles_addBootstrap _ _

/-- All constants of a call site are found the next time. -/
theorem settles_addConstants (bootstrap : BootstrapMethod) (ownerIsInterface : Bool) (c : CallSite) :
    ClassFile.Settles (addConstants bootstrap ownerIsInterface c) := by
  rw [addConstants_eq]
  exact (settles_addBootstrapMethod _ _ _).bind fun i =>
    (ClassFile.settles_inPool (Pool.settles_addInvokeDynamic i _ _)).bind fun _ => Settles.pure ClassFile.Extends.refl _

/-- The class file has the bootstrap method and the entry of a call site where its record says: adding them again answers these
indices. -/
structure Stands (g : ClassFile) (bootstrap : BootstrapMethod) (ownerIsInterface : Bool) (site : CallSite) : Prop where
  bootstrap : addBootstrapMethod bootstrap ownerIsInterface site g = .ok site.bootstrapIndex g
  constant : ClassFile.inPool (Pool.addInvokeDynamic site.bootstrapIndex site.name site.descriptor) g = .ok site.constantIndex g

/-- What was added for a call site stands in every class file that extends the one it was added to. -/
theorem ensures_addConstants_stands (bootstrap : BootstrapMethod) (ownerIsInterface : Bool) (c : CallSite) (f : ClassFile) :
    Ensures (addConstants bootstrap ownerIsInterface c) f
      (fun site t => ∀ g, t.Extends g → site.Stands g bootstrap ownerIsInterface) fun _ _ => True := by
  rw [addConstants_eq, ensures_bind]
  refine Ensures.mono (settles_addBootstrapMethod bootstrap ownerIsInterface c f) ?_ (fun _ _ _ => trivial)
  rintro bootstrapIndex t ⟨-, hbootstrap⟩
  rw [ensures_bind]
  refine Ensures.mono (ClassFile.settles_inPool (Pool.settles_addInvokeDynamic bootstrapIndex c.name c.descriptor) t) ?_
    (fun _ _ _ => trivial)
  rintro constantIndex u ⟨htu, hconstant⟩
  rw [ensures_pure]
  exact fun g hg => ⟨(hbootstrap g (htu.trans hg)).eq_ok, (hconstant g hg).eq_ok⟩

/-! ## Linking again -/

section Again

variable {ctx : Context} {target : Target} {f : FunctionalInterface} {b : Binding} {w : Workspace}

/-- The receiver of a binding, written again, adds nothing to the class file and pushes the value that the call site takes. -/
theorem writeReceiver_again (hreceiver : ctx.emitReceiver = Expr.emit) :
    Ensures (writeReceiver ctx b target) w
      (fun _ t => w.file.Extends t.file ∧ ∀ ctx' u, ctx'.emitReceiver = Expr.emit → t.file.Extends u.file →
        Ensures (writeReceiver ctx' b target) u
          (fun _ v => v.file = u.file ∧ v.classes = u.classes ∧ (if (b.captured? target).isSome then 1 else 0) ≤ v.code.stack.length)
          fun _ _ => False)
      fun _ _ => True := by
  unfold writeReceiver
  cases b.captured? target with
  | none => exact ⟨.refl _, fun _ _ _ _ => ⟨rfl, rfl, Nat.zero_le _⟩⟩
  | some e =>
    dsimp only
    rw [hreceiver, Lower.emit, ensures_focus]
    refine Ensures.intro (fun _ t hrun => ⟨⟨((e.settles_emit _).of_ok hrun).1, List.prefix_refl _, rfl⟩, ?_⟩) (fun _ _ _ => trivial)
    intro ctx' u hreceiver' hu
    rw [hreceiver', Lower.emit, ensures_focus]
    have hagain : Ensures e.emit u.emission (fun _ v => v.pool = u.file.pool) fun _ _ => False := e.emit_again hrun hu.pool
    refine (hagain.and (e.pushes_emit _)).mono ?_ (fun _ _ h => h.1)
    rintro _ v ⟨hpool, entry, -, hstack⟩
    refine ⟨?_, rfl, ?_⟩
    · simp only [Workspace.withEmission, Workspace.withPool, hpool]
    · simp [Workspace.withEmission, hstack]

/-- A call site, linked again with the same settings, adds nothing to the class file and has the same record. -/
theorem link_again (hreceiver : ctx.emitReceiver = Expr.emit) :
    Ensures (link ctx target f b) w
      (fun site t => (∀ g, t.file.Extends g → site.Stands g ctx.settings.bootstrap b.ownerIsInterface) ∧
        ∀ ctx' u, ctx'.settings = ctx.settings → ctx'.emitReceiver = Expr.emit →
          u.classes.canonicalType = w.classes.canonicalType → t.file.Extends u.file →
          Ensures (link ctx' target f b) u (fun site' v => site' = site ∧ v.file = u.file ∧ v.classes = u.classes) fun _ _ => False)
      fun _ _ => True := by
  rw [link_eq, ensures_bind, ensures_get, ensures_bind]
  refine (writeReceiver_again hreceiver).mono ?_ (fun _ _ h => h)
  rintro _ w₁ ⟨hw₁, hreceiver_again⟩
  rw [ensures_bind, Lower.inFile, ensures_focus]
  have hconstants := settles_addConstants ctx.settings.bootstrap b.ownerIsInterface (describe w.classes target f b) w₁.file
  have hstands := ensures_addConstants_stands ctx.settings.bootstrap b.ownerIsInterface (describe w.classes target f b) w₁.file
  have hsite : Ensures (addConstants ctx.settings.bootstrap b.ownerIsInterface (describe w.classes target f b)) w₁.file
      (fun site _ => site.capturesReceiver = (b.captured? target).isSome) fun _ _ => True := by
    rw [addConstants_eq]
    exact Ensures.last fun _ _ => Ensures.last fun _ _ => rfl
  refine ((hconstants.and hstands).and hsite).mono ?_ (fun _ _ _ => trivial)
  rintro site g ⟨⟨⟨hg, hagain⟩, hstands⟩, hcaptures⟩
  rw [ensures_bind, Lower.emit, Emit.inCode, ensures_focus, ensures_focus]
  refine (Ensures.any _ _).mono (fun _ c _ => ?_) (fun _ _ _ => trivial)
  rw [ensures_pure]
  refine ⟨hstands, fun ctx' u hsettings hreceiver' htypes hu => ?_⟩
  rw [link_eq, ensures_bind, ensures_get, ensures_bind]
  refine (hreceiver_again ctx' u hreceiver' (hg.trans hu)).mono ?_ (fun _ _ h => h)
  rintro _ v ⟨hfile, hclasses, hstack⟩
  have hdescribe : describe u.classes target f b = describe w.classes target f b := by
    unfold describe
    rw [htypes]
  rw [ensures_bind, Lower.inFile, ensures_focus, hsettings, hdescribe, hfile]
  refine (hagain u.file hu).mono ?_ (fun _ _ h => h.1)
  rintro _ _ ⟨rfl, rfl⟩
  rw [ensures_bind, Lower.emit, Emit.inCode, ensures_focus, ensures_focus]
  refine (CodeBuffer.ensures_invokeDynamic_of_le _ _ ?_).mono ?_ (fun _ _ h => h)
  · rw [hcaptures]
    exact hstack
  · exact fun _ _ _ => ⟨rfl, rfl, hclasses⟩

end Again

end CallSite

end Linkage
