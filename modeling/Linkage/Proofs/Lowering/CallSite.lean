import Linkage.Lowering.CallSite
import Linkage.Proofs.Emission.Receiver
import Linkage.Proofs.Lowering.Growth

/-!
# What a class file holds for a call site

The record of a call site names an entry of the pool, that entry names a bootstrap method, and the bootstrap method names three
constants. `ClassFile.Describes` follows this chain to its texts. Linking a call site establishes it, and no growth of the class file
breaks it.
-/

namespace Linkage

/-- The class file holds a call site as its record says: the entry of the site, its bootstrap method, and the three arguments of that
method. -/
structure ClassFile.Describes (f : ClassFile) (bootstrap : BootstrapMethod) (ownerIsInterface : Bool) (site : CallSite) : Prop where
  dynamic : f.pool.dynamic? site.constantIndex = some (site.bootstrapIndex, site.name, site.descriptor)
  arguments : ∃ b erased implementation instantiated,
    f.bootstraps[site.bootstrapIndex.toNat]? = some b ∧ b.arguments = [erased, implementation, instantiated] ∧
      f.pool.handle? b.methodRef = some ⟨Invocation.invokeStatic.number, .ofMethod f.isInterface, bootstrap.owner, bootstrap.name,
        bootstrap.descriptor⟩ ∧
      f.pool.methodType? erased = some site.erasedDescriptor ∧
      f.pool.handle? implementation = some ⟨site.invocation.number, .ofMethod ownerIsInterface, site.owner,
        site.implementationName, site.implementationDescriptor⟩ ∧
      f.pool.methodType? instantiated = some site.instantiatedDescriptor

/-- What a class file holds for a call site it holds for good. -/
theorem ClassFile.Describes.mono {f g : ClassFile} {bootstrap : BootstrapMethod} {ownerIsInterface : Bool} {site : CallSite}
    (h : f.Describes bootstrap ownerIsInterface site) (hg : f.Grows g) : g.Describes bootstrap ownerIsInterface site := by
  obtain ⟨b, erased, implementation, instantiated, hb, hargs, hhandle, he, himp, hi⟩ := h.arguments
  refine ⟨hg.pool.dynamic? h.dynamic, b, erased, implementation, instantiated, hg.getElem?_bootstraps hb, hargs, ?_,
    hg.pool.methodType? he, hg.pool.handle? himp, hg.pool.methodType? hi⟩
  rw [hg.header.2.1]
  exact hg.pool.handle? hhandle

/-- What is captured is the expression in front of the member. -/
theorem Binding.target_of_captured? {b : Binding} {target : Target} {e : Expr} (h : b.captured? target = some e) : target = .value e := by
  cases target with
  | type type s => cases h
  | value e' =>
    simp only [captured?, Option.ite_none_left_eq_some, Option.some.injEq] at h
    rw [h.2]

/-- The handle of a binding is of a kind that may be on its method. -/
theorem Binding.permitted_invocation (b : Binding) :
    Handle.Permitted b.invocation.number (.ofMethod b.ownerIsInterface) := by
  unfold Binding.invocation Handle.Permitted
  split
  · exact ⟨[.method, .interfaceMethod], by decide, by cases b.ownerIsInterface <;> decide⟩
  · split
    · rename_i h
      exact ⟨[.interfaceMethod], by decide, by rw [h]; decide⟩
    · rename_i h
      rw [Bool.not_eq_true] at h
      exact ⟨[.method], by decide, by rw [h]; decide⟩

/-- A static handle may be on a method of a class and of an interface. -/
theorem Handle.permitted_bootstrap (onInterface : Bool) :
    Handle.Permitted CallSite.bootstrapHandleKind (.ofMethod onInterface) :=
  ⟨[.method, .interfaceMethod], by decide, by cases onInterface <;> decide⟩

namespace CallSite

/-- The constants of a call site stand in the class file once they are added. -/
theorem adds_addConstants {f : ClassFile} {bootstrap : BootstrapMethod} {ownerIsInterface : Bool} {c : CallSite} (hf : f.Fits)
    (hpermitted : Handle.Permitted c.invocation.number (.ofMethod ownerIsInterface)) :
    ClassFile.Adds (addConstants bootstrap ownerIsInterface c) f fun site g =>
      site = { c with bootstrapIndex := site.bootstrapIndex, constantIndex := site.constantIndex } ∧
        g.Describes bootstrap ownerIsInterface site := by
  unfold addConstants
  refine ClassFile.Adds.bind (Moves.get .refl) ?_
  intro _ _ _ hview
  obtain ⟨rfl, rfl⟩ := hview
  refine ClassFile.Adds.bind (ClassFile.adds_inPool (Pool.adds_addMethodType _ hf.pool)) ?_
  intro erased f₁ h₁ hview
  obtain ⟨_, he⟩ := hview
  have hf₁ := h₁.fits hf
  refine ClassFile.Adds.bind (ClassFile.adds_inPool (Pool.adds_addMethodHandle _ _ _ _ _ hf₁.pool hpermitted))
    fun implementation f₂ h₂ ⟨_, himp⟩ => ?_
  have hf₂ := h₂.fits hf₁
  refine ClassFile.Adds.bind (ClassFile.adds_inPool (Pool.adds_addMethodType _ hf₂.pool)) ?_
  intro instantiated f₃ h₃ hview
  obtain ⟨_, hi⟩ := hview
  have hf₃ := h₃.fits hf₂
  refine ClassFile.Adds.bind (ClassFile.adds_inPool (Pool.adds_addMethodHandle _ _ _ _ _ hf₃.pool (Handle.permitted_bootstrap _)))
    fun handle f₄ h₄ ⟨_, hhandle⟩ => ?_
  have hf₄ := h₄.fits hf₃
  have he₄ := h₄.pool.methodType? (h₃.pool.methodType? (h₂.pool.methodType? he))
  have himp₄ := h₄.pool.handle? (h₃.pool.handle? himp)
  have hi₄ := h₄.pool.methodType? hi
  have hadmitted : Bootstrap.Admitted f₄.pool ⟨handle, [erased, implementation, instantiated]⟩ := by
    refine ⟨⟨_, hhandle⟩, ?_, rfl⟩
    intro a ha
    simp only [List.mem_cons, List.not_mem_nil, or_false] at ha
    rcases ha with rfl | rfl | rfl
    · exact .inr ⟨_, he₄⟩
    · exact .inl ⟨_, himp₄⟩
    · exact .inr ⟨_, hi₄⟩
  refine ClassFile.Adds.bind (ClassFile.adds_addBootstrap hf₄ hadmitted) fun bootstrapIndex f₅ h₅ hb => ?_
  have hf₅ := h₅.fits hf₄
  have hplace : bootstrapIndex.toNat < f₅.bootstraps.size := (Array.getElem?_eq_some_iff.1 hb).1
  refine ClassFile.Adds.bind (ClassFile.adds_inPool (Pool.adds_addInvokeDynamic _ _ _ hf₅.pool hplace))
    fun constantIndex f₆ h₆ ⟨_, hd⟩ => ?_
  have hinterface : f₆.isInterface = f.isInterface := (h₁.trans (h₂.trans (h₃.trans (h₄.trans (h₅.trans h₆))))).header.2.1
  have h₄₆ := (h₅.trans h₆).pool
  refine ⟨.refl, rfl, hd, _, erased, implementation, instantiated, h₆.getElem?_bootstraps hb, rfl, ?_, h₄₆.methodType? he₄,
    h₄₆.handle? himp₄, h₄₆.methodType? hi₄⟩
  rw [hinterface]
  exact h₄₆.handle? hhandle

/-- The code behind the receiver of a binding: what was there, with the code of the receiver if one is captured. -/
def ReceiverWritten (b : Binding) (target : Target) (start : Emission) (code : CodeBuffer) : Prop :=
  match b.captured? target with
  | none => code = start.code
  | some e => ∃ p, e.emit start = .ok () ⟨p, code⟩

/-- Writes the code of the receiver that a binding captures, if it captures one. -/
def writeReceiver (ctx : Context) (b : Binding) (target : Target) : Lower Unit :=
  match b.captured? target with
  | none => pure ()
  | some e => Lower.emit (ctx.emitReceiver e)

/-- Linking, with the receiver as a step of its own. -/
theorem link_eq (ctx : Context) (target : Target) (f : FunctionalInterface) (b : Binding) :
    link ctx target f b = (do
      let w ← get
      writeReceiver ctx b target
      let site ← Lower.inFile (addConstants ctx.settings.bootstrap b.ownerIsInterface (describe w.classes target f b))
      Lower.emit (Emit.inCode (CodeBuffer.invokeDynamic site.constantIndex (if site.capturesReceiver then 1 else 0)
        (.object f.type.constantName)))
      return site) := by
  unfold link writeReceiver
  cases b.captured? target <;> rfl

theorem adds_writeReceiver {w : Workspace} {ctx : Context} {target : Target} {b : Binding} (hw : w.file.Fits)
    (hreceiver : ctx.emitReceiver = Expr.emit) :
    Lower.Adds (writeReceiver ctx b target) w fun _ t => ReceiverWritten b target w.emission t.code := by
  unfold ReceiverWritten writeReceiver
  cases b.captured? target with
  | none => exact ⟨.refl, rfl⟩
  | some e =>
    dsimp only
    rw [hreceiver]
    refine (Lower.adds_emit hw e.growsPool_emit).mono ?_
    intro _ t _ hview
    obtain ⟨e', hrun, rfl⟩ := hview
    exact ⟨e'.pool, hrun⟩

/-- A call site that is linked stands in the class file, and its instruction in the code, behind its receiver. -/
theorem adds_link {w : Workspace} {ctx : Context} {target : Target} {f : FunctionalInterface} {b : Binding} (hw : w.file.Fits)
    (hreceiver : ctx.emitReceiver = Expr.emit) :
    Lower.Adds (link ctx target f b) w fun site t =>
      site = { describe w.classes target f b with bootstrapIndex := site.bootstrapIndex, constantIndex := site.constantIndex } ∧
        t.file.Describes ctx.settings.bootstrap b.ownerIsInterface site ∧
        ∃ code, ReceiverWritten b target w.emission code ∧
          CodeBuffer.invokeDynamic site.constantIndex (if site.capturesReceiver then 1 else 0) (.object f.type.constantName) code =
            .ok () t.code := by
  rw [link_eq]
  refine Lower.Adds.bind (Moves.get .refl) ?_
  intro _ _ _ hview
  obtain ⟨rfl, rfl⟩ := hview
  refine Lower.Adds.bind (adds_writeReceiver hw hreceiver) fun _ w₁ h₁ hcode => ?_
  have hw₁ := h₁.fits hw
  refine Lower.Adds.bind (Lower.adds_inFile (adds_addConstants hw₁ b.permitted_invocation)) ?_
  intro site w₂ h₂ hview
  obtain ⟨hw₂, hsite, hd⟩ := hview
  refine Lower.Adds.bind (Lower.adds_inCode (h₂.fits hw₁)) fun _ w₃ h₃ hrun => ?_
  rw [hw₂] at hrun
  exact ⟨.refl, hsite, hd.mono h₃, w₁.code, hcode, hrun⟩

end CallSite

end Linkage
