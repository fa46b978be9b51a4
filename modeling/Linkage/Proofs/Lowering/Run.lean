import Linkage.ClassTable.Platform
import Linkage.Lowering.Basic
import Linkage.Proofs.Lowering.CallSite

/-!
# Runs of lowering

References are lowered one after the other into one class file, each with types, names, code and settings of its own. Whatever becomes
of them, the class file only grows (`ClassFile.grows_lowerAll`), and each call site that was linked on the way stays described.
-/

namespace Linkage

/-! ## One reference -/

/-- The type that owns the method a reference is bound to: the enclosing type for a creation, else the type that the target stands
for. -/
def Reference.owner (r : Reference) (w : Workspace) : JType :=
  if r.isCreation then if w.file.isInterface then .ofInterface w.file.name else .ofClass w.file.name
  else w.classes.canonicalType r.target.staticType

/-- Whether the owner is an interface: the class file at hand for a creation, else as the known types have it. -/
def Reference.ownerIsInterface (r : Reference) (w : Workspace) : Bool :=
  if r.isCreation then w.file.isInterface else (r.owner w).internalName?.any w.classes.isInterface

/-- What a binding of a reference says, and that nothing was written for it but a factory: the workspace `t` behind it has the code of
`w`. -/
structure Binding.Of (r : Reference) (w : Workspace) (b : Binding) (t : Workspace) : Prop where
  isCreation : b.isCreation = r.isCreation
  target : r.isCreation = true → r.target.isType = true
  owner : b.owner = r.owner w
  ownerIsInterface : b.ownerIsInterface = r.ownerIsInterface w
  code : t.code = w.code
  unchanged : r.isCreation = false → t = w

/-- What a linked reference leaves behind: a binding, the constants of its call site in the class file and, behind the receiver, its
instruction in the code. -/
structure Linked.Of (bootstrap : BootstrapMethod) (r : Reference) (f : FunctionalInterface) (w : Workspace) (l : Linked)
    (t : Workspace) : Prop where
  binding : ∃ v, l.binding.Of r w v
  site : l.site = { CallSite.describe w.classes r.target f l.binding with
    bootstrapIndex := l.site.bootstrapIndex, constantIndex := l.site.constantIndex }
  described : t.file.Describes bootstrap l.binding.ownerIsInterface l.site
  code : ∃ code, CallSite.ReceiverWritten l.binding r.target w.emission code ∧
    CodeBuffer.invokeDynamic l.site.constantIndex (if l.site.capturesReceiver then 1 else 0) (.object f.type.constantName) code =
      .ok () t.code

/-- A creation captures nothing. -/
theorem Binding.captured?_of_isCreation {b : Binding} (h : b.isCreation = true) (target : Target) : b.captured? target = none := by
  cases target with
  | type t s => rfl
  | value e => simp [captured?, h]

namespace Lower

variable {w : Workspace} {ctx : Context} {r : Reference} {exact : List Param}

/-- A reference to a constructor is bound to the factory that was made for it. -/
theorem adds_bindCreation (hw : w.file.Fits) (hr : r.isCreation = true) :
    Adds (bindCreation ctx r exact) w fun b t => b.Of r w t := by
  unfold bindCreation
  cases htarget : r.target with
  | value e => exact .refl
  | type type span =>
    refine Adds.bind (Factory.adds_create hw) ?_
    intro factory t h hview
    obtain ⟨hcode, _⟩ := hview
    refine Adds.bind (Moves.get .refl) ?_
    intro _ _ _ hview
    obtain ⟨rfl, rfl⟩ := hview
    obtain ⟨hname, hinterface, -⟩ := h.header
    refine ⟨.refl, hr.symm, fun _ => by rw [htarget]; rfl, ?_, ?_, hcode, ?_⟩
    · simp [Reference.owner, hr, hname, hinterface]
    · simp [Reference.ownerIsInterface, hr, hinterface]
    · simp [hr]

/-- A reference to a method is bound to the method that it denotes. -/
theorem adds_bindMember (hr : r.isCreation = false) : Adds (bindMember ctx r exact) w fun b t => b.Of r w t := by
  unfold bindMember
  refine Adds.bind (Moves.get .refl) ?_
  intro _ _ _ hview
  obtain ⟨rfl, rfl⟩ := hview
  refine Adds.bind (Moves.answer .refl _) ?_
  intro method _ _ hview
  obtain ⟨rfl, -⟩ := hview
  exact ⟨.refl, hr.symm, by simp [hr], by simp [Reference.owner, hr], by simp [Reference.ownerIsInterface, Reference.owner, hr],
    rfl, fun _ => rfl⟩

/-- The call site of a binding, written where the binding has left the workspace. -/
theorem adds_bound {f : FunctionalInterface} {b : Binding} {v : Workspace} (hv : v.file.Fits)
    (hreceiver : ctx.emitReceiver = Expr.emit) (hb : b.Of r w v) (factory : Option MethodDecl) :
    Adds (do return Linked.mk b (← CallSite.link ctx r.target f b) factory) v fun l t => l.Of ctx.settings.bootstrap r f w t := by
  refine Adds.bind (CallSite.adds_link hv hreceiver) ?_
  intro site t _ hview
  obtain ⟨hsite, hd, code, hwritten, hrun⟩ := hview
  cases hr : r.isCreation with
  | false =>
    rw [hb.unchanged hr] at hsite hwritten hb
    exact ⟨.refl, ⟨_, hb⟩, hsite, hd, code, hwritten, hrun⟩
  | true =>
    -- nothing is captured, so the types that the factory has joined are not looked at
    have hnone := Binding.captured?_of_isCreation (hb.isCreation.trans hr) r.target
    refine ⟨.refl, ⟨v, hb⟩, ?_, hd, code, ?_, hrun⟩
    · rw [hsite]
      simp [CallSite.describe, hnone]
    · simp only [CallSite.ReceiverWritten, hnone] at hwritten ⊢
      exact hwritten.trans hb.code

/-- A linked reference has its receiver, its constants and its instruction in the class file. -/
theorem adds_linkReference {f : FunctionalInterface} {inferred : List (Option JType)} (hw : w.file.Fits)
    (hreceiver : ctx.emitReceiver = Expr.emit) :
    Adds (linkReference ctx r f inferred) w fun l t => l.Of ctx.settings.bootstrap r f w t := by
  unfold linkReference
  refine Adds.bind (Moves.get .refl) ?_
  intro _ _ _ hview
  obtain ⟨rfl, rfl⟩ := hview
  refine Adds.bind (Moves.answer .refl _) ?_
  intro exact _ _ hview
  obtain ⟨rfl, -⟩ := hview
  cases hr : r.isCreation with
  | true => exact Adds.bind (adds_bindCreation hw hr) fun b v h hb => adds_bound (h.fits hw) hreceiver hb _
  | false => exact Adds.bind (adds_bindMember hr) fun b v h hb => adds_bound (h.fits hw) hreceiver hb _

/-- What lowering a reference leaves behind, whatever becomes of it. -/
theorem adds_reference (hw : w.file.Fits) (hreceiver : ctx.emitReceiver = Expr.emit) :
    Adds (reference ctx r) w fun outcome t => ∀ l, outcome = .linked l → ∃ f inferred, r.findings w.classes = .ok (f, inferred) ∧
      l.Of ctx.settings.bootstrap r f w t := by
  unfold reference
  refine Adds.bind (Moves.get .refl) ?_
  intro _ _ _ hview
  obtain ⟨rfl, rfl⟩ := hview
  cases hf : r.findings w.classes with
  | error reason => exact ⟨.refl, fun l hl => nomatch hl⟩
  | ok found =>
    obtain ⟨f, inferred⟩ := found
    refine Adds.bind (adds_linkReference hw hreceiver) fun l t _ hl => ⟨.refl, ?_⟩
    intro _ hview
    obtain ⟨⟩ := hview
    exact ⟨f, inferred, rfl, hl⟩

/-- A checked reference that is linked is linked to what was found for it. -/
theorem adds_checkedReference (hw : w.file.Fits) (hreceiver : ctx.emitReceiver = Expr.emit) :
    Adds (checkedReference ctx r) w fun outcome t => ∀ l, outcome = .linked l →
      ∃ f inferred, r.findings w.classes = .ok (f, inferred) ∧ l.Of ctx.settings.bootstrap r f w t := by
  unfold checkedReference
  refine Adds.bind (Moves.get .refl) ?_
  intro _ _ _ hview
  obtain ⟨rfl, rfl⟩ := hview
  refine Adds.bind (Moves.answer .refl _) ?_
  intro _ _ _ hview
  obtain ⟨rfl, -⟩ := hview
  exact adds_reference hw hreceiver

end Lower

/-! ## References in a row -/

/-- A reference with everything that it is lowered with, but for the class file. -/
structure Request where
  classes : ClassTable
  names : NameSupply
  /-- The code of the method that the reference stands in, so far. -/
  code : CodeBuffer
  settings : Settings
  method : Option String
  policy : AccessPolicy
  reference : Reference

namespace Request

/-- How the reference is lowered; its receiver is written by `Expr.emit`. -/
def context (q : Request) : Context :=
  ⟨q.settings, q.method, q.policy, Expr.emit⟩

/-- What lowering works on, in a class file. -/
def workspace (q : Request) (f : ClassFile) : Workspace :=
  ⟨q.classes, q.names, f, q.code⟩

/-- Lowers the reference into a class file: its outcome or fault, and what it leaves behind. -/
def lower (q : Request) (f : ClassFile) : Except Fault Outcome × Workspace :=
  runStep (Lower.checkedReference q.context q.reference) (q.workspace f)

/-- `"abc"::length` in a method of `demo/Main`, for the interface `demo/Sizer` with the one method `int size()`. -/
def sample : Request where
  classes := ClassTable.platform.register ((ClassDecl.ofInterface "demo/Sizer").addMethods
    [{ name := "size", params := [], result := .int, access := .accPublic ||| .accAbstract }])
  names := ⟨"demo/Main", 0⟩
  code := {}
  settings := {}
  method := some "main"
  policy := .language
  reference := ⟨.value (.literal (.text "abc") .unknown), "length", some (.ofInterface "demo/Sizer"), some [], .unknown⟩

end Request

namespace ClassFile

/-- An empty class file, of the version that the settings ask for. -/
def create (name : String) (isInterface : Bool) (settings : Settings) : ClassFile :=
  { name := name, isInterface := isInterface, majorVersion := settings.majorVersion }

/-- The class file after requests are lowered into it in order, also those that fail. -/
def lowerAll (f : ClassFile) (requests : List Request) : ClassFile :=
  requests.foldl (fun g q => (q.lower g).2.file) f

/-- A new class file is within all limits. -/
theorem fits_create (name : String) (isInterface : Bool) (settings : Settings) : (create name isInterface settings).Fits :=
  ⟨Pool.fits_empty, Nat.zero_le _⟩

/-- One request lets the class file grow, whatever becomes of it. -/
theorem grows_lower {f : ClassFile} (hf : f.Fits) (q : Request) : f.Grows (q.lower f).2.file := by
  have h : Lower.Adds (Lower.checkedReference q.context q.reference) (q.workspace f) _ := Lower.adds_checkedReference hf rfl
  unfold Request.lower runStep
  split
  · rename_i hrun
    exact (Ensures.of_ok h hrun).1
  · rename_i hrun
    exact Ensures.of_error h hrun

/-- Requests in a row let the class file grow. -/
theorem grows_lowerAll {f : ClassFile} (hf : f.Fits) (requests : List Request) : f.Grows (f.lowerAll requests) := by
  induction requests generalizing f with
  | nil => exact .refl
  | cons q qs ih =>
    have hq := grows_lower hf q
    exact hq.trans (ih (hq.fits hf))

end ClassFile

end Linkage
