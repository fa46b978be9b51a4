import Linkage.Proofs.Emission.Room
import Linkage.Proofs.Lowering.CallSite

/-!
# How much room lowering takes

Most steps of lowering add nothing but code, constants and bootstrap methods (`Workspace.Keeps`). How many constants and bootstrap methods
there can be is known beforehand, and where the class file has room for them a step does not run out of room (`Lower.Spends`).
-/

namespace Linkage

variable {α β : Type} {i j k l : Nat}

/-! ## The class file -/

namespace ClassFile

/-- Nothing was added to the class file but at most `j` bootstrap methods and at most `k` constants. -/
structure Keeps (j k : Nat) (f g : ClassFile) : Prop where
  name : g.name = f.name
  isInterface : g.isInterface = f.isInterface
  methods : g.methods = f.methods
  bootstraps : g.bootstraps.size ≤ f.bootstraps.size + j
  pool : f.pool.Within k g.pool

variable {f g h : ClassFile}

/-- A class file takes nothing to stay what it is. -/
theorem Keeps.refl (f : ClassFile) : Keeps 0 0 f f :=
  ⟨rfl, rfl, rfl, Nat.le_refl _, .refl f.pool⟩

/-- What two changes take adds up. -/
theorem Keeps.trans (hfg : Keeps i k f g) (hgh : Keeps j l g h) : Keeps (i + j) (k + l) f h := by
  have hf := hfg.bootstraps
  have hg := hgh.bootstraps
  exact ⟨hgh.name.trans hfg.name, hgh.isInterface.trans hfg.isInterface, hgh.methods.trans hfg.methods, by omega,
    hfg.pool.trans hgh.pool⟩

/-- More than what is taken is enough, too. -/
theorem Keeps.mono (hfg : Keeps i k f g) (hij : i ≤ j) (hkl : k ≤ l) : Keeps j l f g :=
  ⟨hfg.name, hfg.isInterface, hfg.methods, Nat.le_trans hfg.bootstraps (Nat.add_le_add_left hij _), hfg.pool.mono hkl⟩

/-- There is room for `j` bootstrap methods and `k` constants. -/
structure Room (f : ClassFile) (j k : Nat) : Prop where
  bootstraps : f.bootstraps.size + j ≤ maxBootstraps
  pool : f.pool.entries.size + k ≤ Pool.capacity

/-- Room for more is room for less. -/
theorem Room.mono (hf : f.Room j l) (hij : i ≤ j) (hkl : k ≤ l) : f.Room i k :=
  ⟨Nat.le_trans (Nat.add_le_add_left hij _) hf.bootstraps, Nat.le_trans (Nat.add_le_add_left hkl _) hf.pool⟩

/-- What is left of the room when some of it was used. -/
theorem Room.rest (hf : f.Room (i + j) (k + l)) (hbootstraps : g.bootstraps.size ≤ f.bootstraps.size + i)
    (hpool : f.pool.Within k g.pool) : g.Room j l := by
  obtain ⟨hroom, hroom'⟩ := hf
  have hentries := hpool.2
  exact ⟨by omega, by omega⟩

/-- Where there is room for `j` bootstrap methods and `k` constants the step does not run out of room, and adds no more than that, also when
it fails. -/
def Spends (j k : Nat) (step : Step α) : Prop :=
  ∀ f : ClassFile, f.Room j k →
    Ensures step f (fun _ g => f.Keeps j k g) fun fault g => ¬ fault.IsExhaustion ∧ f.Keeps j k g

/-- One step after another takes what the two take together. -/
theorem spends_bind {x : Step α} {y : α → Step β} (hx : Spends i k x) (hy : ∀ a, Spends j l (y a)) :
    Spends (i + j) (k + l) (x >>= y) := by
  intro f hf
  rw [ensures_bind]
  refine (hx f (hf.mono (Nat.le_add_right i j) (Nat.le_add_right k l))).mono ?_ ?_
  · intro a g hfg
    exact (hy a g (hf.rest hfg.bootstraps hfg.pool)).mono (fun _ _ hgh => hfg.trans hgh) (fun _ _ hgh => ⟨hgh.1, hfg.trans hgh.2⟩)
  · intro fault g hview
    obtain ⟨hfault, hfg⟩ := hview
    exact ⟨hfault, hfg.mono (Nat.le_add_right i j) (Nat.le_add_right k l)⟩

/-- A step on the pool takes entries of the pool only. -/
theorem spends_inPool {step : Pool.Step α} (hstep : Pool.Takes k step) : Spends 0 k (inPool step) := by
  intro f hf
  rw [inPool, ensures_focus]
  exact (hstep f.pool hf.pool).mono (fun _ _ hp => ⟨rfl, rfl, rfl, Nat.le_refl _, hp⟩) (fun _ _ hp => hp.elim)

/-- A bootstrap method takes one place in the table. -/
theorem spends_addBootstrap (methodRef : UInt16) (arguments : List UInt16) : Spends 1 0 (addBootstrap methodRef arguments) := by
  intro f hf
  unfold Ensures addBootstrap
  cases f.bootstraps.findIdx? (· = ⟨methodRef, arguments⟩) with
  | some n => exact (Keeps.refl f).mono (Nat.zero_le 1) (Nat.le_refl 0)
  | none =>
    have hlt : f.bootstraps.size < maxBootstraps := hf.bootstraps
    simp only [hlt, if_true]
    exact ⟨rfl, rfl, rfl, by simp, .refl f.pool⟩

end ClassFile

/-- The constants of a call site, and its bootstrap method. -/
theorem CallSite.spends_addConstants (bootstrap : BootstrapMethod) (ownerIsInterface : Bool) (c : CallSite) :
    ClassFile.Spends 1 22 (addConstants bootstrap ownerIsInterface c) := by
  intro f hf
  unfold addConstants
  rw [ensures_bind, ensures_get]
  refine ClassFile.spends_bind (ClassFile.spends_inPool (Pool.takes_addMethodType _)) (fun erased =>
    ClassFile.spends_bind (ClassFile.spends_inPool (Pool.takes_addMethodHandle _ _ _ _ _)) fun implementation =>
    ClassFile.spends_bind (ClassFile.spends_inPool (Pool.takes_addMethodType _)) fun instantiated =>
    ClassFile.spends_bind (ClassFile.spends_inPool (Pool.takes_addMethodHandle _ _ _ _ _)) fun handle =>
    ClassFile.spends_bind (ClassFile.spends_addBootstrap _ _) fun bootstrapIndex =>
    ClassFile.spends_bind (j := 0) (l := 0) (ClassFile.spends_inPool (Pool.takes_addInvokeDynamic _ _ _)) fun constantIndex => ?_)
    f hf
  exact fun g _ => .refl g

/-! ## The workspace -/

namespace Workspace

/-- Nothing was added to the workspace but code, at most `j` bootstrap methods and at most `k` constants. -/
structure Keeps (j k : Nat) (w t : Workspace) : Prop where
  classes : t.classes = w.classes
  names : t.names = w.names
  file : w.file.Keeps j k t.file

variable {w t u : Workspace}

/-- A workspace takes nothing to stay what it is. -/
theorem Keeps.refl (w : Workspace) : Keeps 0 0 w w :=
  ⟨rfl, rfl, .refl w.file⟩

/-- What two changes of a workspace take adds up. -/
theorem Keeps.trans (hwt : Keeps i k w t) (htu : Keeps j l t u) : Keeps (i + j) (k + l) w u :=
  ⟨htu.classes.trans hwt.classes, htu.names.trans hwt.names, hwt.file.trans htu.file⟩

/-- More than what is taken is enough for a workspace, too. -/
theorem Keeps.mono (hwt : Keeps i k w t) (hij : i ≤ j) (hkl : k ≤ l) : Keeps j l w t :=
  ⟨hwt.classes, hwt.names, hwt.file.mono hij hkl⟩

end Workspace

namespace Lower

/-- Where the class file has room for `j` bootstrap methods and `k` constants the step does not run out of room, and adds no more than
that, also when it fails. -/
def Spends (j k : Nat) (step : Lower α) : Prop :=
  ∀ w : Workspace, w.file.Room j k →
    Ensures step w (fun _ t => w.Keeps j k t) fun fault t => ¬ fault.IsExhaustion ∧ w.Keeps j k t

/-- One step of lowering after another takes what the two take together. -/
theorem spends_bind {x : Lower α} {y : α → Lower β} (hx : Spends i k x) (hy : ∀ a, Spends j l (y a)) :
    Spends (i + j) (k + l) (x >>= y) := by
  intro w hw
  rw [ensures_bind]
  refine (hx w (hw.mono (Nat.le_add_right i j) (Nat.le_add_right k l))).mono ?_ ?_
  · intro a t hwt
    exact (hy a t (hw.rest hwt.file.bootstraps hwt.file.pool)).mono (fun _ _ htu => hwt.trans htu) (fun _ _ htu => ⟨htu.1, hwt.trans htu.2⟩)
  · intro fault t hview
    obtain ⟨hfault, hwt⟩ := hview
    exact ⟨hfault, hwt.mono (Nat.le_add_right i j) (Nat.le_add_right k l)⟩

/-- Emission takes entries of the pool only. -/
theorem spends_emit {step : Emit α} (hstep : Emit.Takes k step) : Spends 0 k (emit step) := by
  intro w hw
  rw [emit, ensures_focus]
  exact (hstep w.emission hw.pool).mono (fun _ _ ht => ⟨rfl, rfl, rfl, rfl, rfl, Nat.le_refl _, ht⟩)
    (fun _ _ ht => ⟨ht.1, rfl, rfl, rfl, rfl, rfl, Nat.le_refl _, ht.2⟩)

/-- A step on the class file takes there what it takes in lowering. -/
theorem spends_inFile {step : ClassFile.Step α} (hstep : ClassFile.Spends j k step) : Spends j k (inFile step) := by
  intro w hw
  rw [inFile, ensures_focus]
  exact (hstep w.file hw).mono (fun _ _ hg => ⟨rfl, rfl, hg⟩) (fun _ _ hg => ⟨hg.1, rfl, rfl, hg.2⟩)

/-- A body of its own takes the constants that its code takes. -/
theorem spends_assemble (tracing : Bool) {step : Emit Unit} (hstep : Emit.Takes k step) : Spends 0 k (assemble tracing step) := by
  intro w hw
  rw [ensures_assemble]
  exact (hstep ⟨w.file.pool, .create 0 tracing⟩ hw.pool).mono (fun _ _ ht => ⟨rfl, rfl, rfl, rfl, rfl, Nat.le_refl _, ht⟩)
    (fun _ _ ht => ⟨ht.1, rfl, rfl, rfl, rfl, rfl, Nat.le_refl _, ht.2⟩)

end Lower

/-- The constants that the receiver of a reference can add. -/
def Target.demand : Target → Nat
  | .type _ _ => 0
  | .value e => e.demand

/-- A call site takes one place in the table and, beside the constants of its receiver, 22 entries of the pool. -/
theorem CallSite.spends_link {ctx : Context} (hreceiver : ctx.emitReceiver = Expr.emit) (target : Target) (f : FunctionalInterface)
    (b : Binding) : Lower.Spends 1 (target.demand + 22) (link ctx target f b) := by
  have hwrite : Lower.Spends 0 target.demand (writeReceiver ctx b target) := by
    unfold writeReceiver
    cases hcaptured : b.captured? target with
    | none => exact fun w _ => (Workspace.Keeps.refl w).mono (Nat.le_refl 0) (Nat.zero_le _)
    | some e =>
      rw [Binding.target_of_captured? hcaptured]
      dsimp only
      rw [hreceiver]
      exact Lower.spends_emit e.takes_emit
  intro w hw
  rw [link_eq, ensures_bind, ensures_get]
  refine Lower.spends_bind hwrite (fun _ => Lower.spends_bind (j := 0) (l := 0) (Lower.spends_inFile (spends_addConstants _ _ _))
    fun site => Lower.spends_bind (j := 0) (l := 0) (Lower.spends_emit (Emit.takes_inCode _)) fun _ => ?_) w
      (hw.mono (Nat.le_refl 1) (Nat.le_refl _))
  exact fun t _ => .refl t

end Linkage
