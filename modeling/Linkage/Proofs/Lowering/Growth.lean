import Linkage.Lowering.Basic
import Linkage.Proofs.ClassFile.Buffer
import Linkage.Proofs.ClassFile.Growth
import Linkage.Proofs.Emission.Growth

/-!
# Lowering lets the class file grow

Lowering a reference, with receivers written by `Expr.emit`, lets the class file grow and does nothing else to it, whatever the
outcome (`Lower.adds_checkedReference`). On the way there every part of lowering gets its statement: what its answer says about the
state behind it.
-/

namespace Linkage

namespace Lower

variable {α β : Type} {w : Workspace}

/-- Run on the workspace `w` the step lets the class file grow, also when it fails, and its answer stands for what `view` says of the
workspace behind it. -/
abbrev Adds (step : Lower α) (w : Workspace) (view : α → Workspace → Prop) : Prop :=
  Moves (fun w t : Workspace => w.file.Grows t.file) step w view

theorem Adds.bind {x : Lower α} {k : α → Lower β} {φ : α → Workspace → Prop} {ψ : β → Workspace → Prop} (hx : Adds x w φ)
    (hk : ∀ a t, w.file.Grows t.file → φ a t → Adds (k a) t ψ) : Adds (x >>= k) w ψ :=
  Moves.bind (R := fun w t : Workspace => w.file.Grows t.file) (fun _ _ _ => ClassFile.Grows.trans) hx hk

/-- Code written into the method at hand changes its buffer and the pool. -/
theorem adds_emit {step : Emit α} (hw : w.file.Fits) (hs : Emit.GrowsPool Handle.Permitted w.file.bootstraps.size step) :
    Adds (emit step) w fun a t => ∃ e, step w.emission = .ok a e ∧ t = w.withEmission e := by
  have hgrows := hs w.emission hw.pool
  unfold Adds Moves emit
  rw [ensures_focus]
  exact Ensures.intro (fun a e hrun => ⟨.ofPool (hgrows.of_ok hrun).1, e, hrun, rfl⟩)
    (fun _ e hrun => .ofPool (hgrows.of_error hrun))

/-- A step on the buffer is seen from outside as what it does to the buffer. -/
theorem adds_inCode {step : CodeBuffer.Step α} (hw : w.file.Fits) :
    Adds (emit (Emit.inCode step)) w fun a t => step w.code = .ok a t.code := by
  refine (adds_emit hw (Emit.growsPool_inCode step)).mono ?_
  intro a t _ hview
  obtain ⟨e, hrun, rfl⟩ := hview
  have hcode : Ensures (Emit.inCode step) w.emission (fun a e => step w.code = .ok a e.code) (fun _ _ => True) := by
    rw [Emit.inCode, ensures_focus]
    exact Ensures.intro (fun _ _ h => h) (fun _ _ _ => trivial)
  exact hcode.of_ok hrun

/-- A body of its own: what holds of its buffer, and of the workspace with its pool. -/
theorem ensures_assemble {tracing : Bool} {step : Emit Unit} {ok : CodeBuffer → Workspace → Prop} {err : Fault → Workspace → Prop} :
    Ensures (assemble tracing step) w ok err ↔ Ensures step ⟨w.file.pool, .create 0 tracing⟩
      (fun _ e => ok e.code (w.withPool e.pool)) (fun fault e => err fault (w.withPool e.pool)) := by
  unfold Ensures assemble
  cases step ⟨w.file.pool, .create 0 tracing⟩ <;> rfl

/-- A body of its own changes the pool only. -/
theorem adds_assemble {tracing : Bool} {step : Emit Unit} (hw : w.file.Fits)
    (hs : Emit.GrowsPool Handle.Permitted w.file.bootstraps.size step) :
    Adds (assemble tracing step) w fun code t => ∃ e, step ⟨w.file.pool, .create 0 tracing⟩ = .ok () e ∧ code = e.code ∧
      t = w.withPool e.pool := by
  have hgrows := hs ⟨w.file.pool, .create 0 tracing⟩ hw.pool
  unfold Adds Moves
  rw [ensures_assemble]
  exact Ensures.intro (fun _ e hrun => ⟨.ofPool (hgrows.of_ok hrun).1, e, hrun, rfl, rfl⟩)
    (fun _ _ hrun => .ofPool (hgrows.of_error hrun))

/-- What is added to the class file leaves the rest of the workspace alone. -/
theorem adds_inFile {step : ClassFile.Step α} {view : α → ClassFile → Prop} {fault : FileFault → Fault}
    (hs : ClassFile.Adds step w.file view) :
    Adds (inFile step fault) w fun a t => t = { w with file := t.file } ∧ view a t.file :=
  Moves.focus hs (fun _ hg => hg) fun _ _ hv => ⟨rfl, hv⟩

end Lower

/-! ## Factories -/

namespace Factory

variable {w : Workspace}

/-- The flags of a factory go together. -/
theorem conflicts_access (inInterface : Bool) : (access inInterface).conflicts inInterface = false := by
  cases inInterface <;> decide

/-- A factory is not abstract. -/
theorem isAbstract_access (inInterface : Bool) : (access inInterface).isAbstract = false := by
  cases inInterface <;> decide

/-- A factory is static. -/
theorem isStatic_access (inInterface : Bool) : (access inInterface).isStatic = true := by
  cases inInterface <;> decide

/-- The body of a factory ends in a return. -/
theorem back?_of_body {s : Scope} {type : JType} {exact : List Param} {span : Span} {start final : Emission}
    (h : body s type exact span start = .ok () final) :
    ∃ opcode ∈ Opcode.returns, final.code.bytes.back? = some opcode := by
  have hbody : Ensures (body s type exact span) start
      (fun _ e => ∃ opcode ∈ Opcode.returns, e.code.bytes.back? = some opcode) (fun _ _ => True) := by
    unfold body
    rw [ensures_bind]
    refine Ensures.intro (fun _ e _ => ?_) (fun _ _ _ => trivial)
    rw [ensures_bind]
    refine Ensures.intro (fun _ e' _ => ?_) (fun _ _ _ => trivial)
    rw [Emit.inCode, ensures_focus]
    refine (CodeBuffer.ensures_emitReturn type e'.code).mono ?_ (fun _ _ _ => trivial)
    rintro _ b hb
    refine ⟨_, Opcode.returnOf_mem_returns type, ?_⟩
    rw [hb.eq]
    simp [CodeBuffer.emitOp]
  exact hbody.of_ok h

/-- Installing a factory pushes its method, from which its code can be read. -/
theorem adds_install {factory : MethodDecl} {code : CodeBuffer} {span : Span} (hw : w.file.Fits)
    (haccess : factory.access = access w.file.isInterface)
    (hreturn : ∃ opcode ∈ Opcode.returns, code.bytes.back? = some opcode) :
    Lower.Adds (install factory code span) w fun _ t => t.code = w.code ∧ ∃ m, t.file.methods = w.file.methods.push m ∧
      m.access = factory.access ∧ t.file.pool.utf8? m.nameIndex = some factory.name ∧
      t.file.pool.utf8? m.descriptorIndex = some factory.descriptor ∧ t.file.body? m = some (.ofBuffer code) := by
  unfold install
  refine Lower.Adds.bind (Moves.get .refl) ?_
  intro _ _ _ hview
  obtain ⟨rfl, rfl⟩ := hview
  refine Lower.Adds.bind (Moves.answer .refl _) ?_
  intro _ _ _ hview
  obtain ⟨rfl, -⟩ := hview
  refine Lower.Adds.bind (Lower.adds_inFile (ClassFile.adds_addMethod hw ?_ ?_ hreturn)) ?_
  · rw [haccess]
    exact conflicts_access _
  · rw [haccess]
    exact isAbstract_access _
  · intro _ t _ hview
    obtain ⟨ht, hm⟩ := hview
    exact ⟨.refl, by rw [ht], hm⟩

/-- A factory that is made has a method in the class file, whose body was written for the type that the target stands for. -/
theorem adds_create {ctx : Context} {target : JType} {exact : List Param} {span : Span} (hw : w.file.Fits) :
    Lower.Adds (create ctx target exact span) w fun factory t => t.code = w.code ∧ factory.params = exact ∧
      factory.result = w.classes.canonicalType target ∧ ∃ e m,
      body (w.scope ctx.policy) (w.classes.canonicalType target) exact span ⟨w.file.pool, .create 0 ctx.settings.tracing⟩ =
        .ok () e ∧
      e.pool.Extends t.file.pool ∧ t.file.methods = w.file.methods.push m ∧
      t.file.pool.utf8? m.nameIndex = some factory.name ∧ t.file.pool.utf8? m.descriptorIndex = some factory.descriptor ∧
      t.file.body? m = some (.ofBuffer e.code) := by
  unfold create
  refine Lower.Adds.bind (Moves.get .refl) ?_
  intro _ _ _ hview
  obtain ⟨rfl, rfl⟩ := hview
  dsimp only
  refine Lower.Adds.bind (Lower.adds_assemble hw (growsPool_body _ _ _ _)) ?_
  intro code w₁ h₁ hview
  obtain ⟨e, hbody, rfl, rfl⟩ := hview
  refine Lower.Adds.bind (φ := fun _ t => t = { w.withPool e.pool with names := t.names }) ⟨.refl, rfl⟩ ?_
  rintro name w₂ - hw₂
  refine Lower.Adds.bind (adds_install ?_ ?_ (back?_of_body hbody)) ?_
  · rw [hw₂]
    exact h₁.fits hw
  · rw [hw₂]
    rfl
  · intro _ t h₂ hview
    obtain ⟨hbuffer, m, hmethods, -, hname, hdescriptor, hcode⟩ := hview
    rw [hw₂] at hbuffer hmethods h₂
    exact ⟨.refl, hbuffer, rfl, rfl, e, m, hbody, h₂.pool, hmethods, hname, hdescriptor, hcode⟩

end Factory

end Linkage
