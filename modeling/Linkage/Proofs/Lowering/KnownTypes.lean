import Linkage.Proofs.Lowering.Effects

/-!
# The known types along a run

Lowering changes the known types in one place only, where a factory joins the enclosing type. So they agree with what they were before,
whatever becomes of a reference (`Lower.keepsTypes_checkedReference`).
-/

namespace Linkage

open NameSupply

namespace Lower

/-- However the step ends, the known types have gained factories at most. -/
def KeepsTypes {α : Type} (step : Lower α) : Prop :=
  ∀ w, Moves (fun w t : Workspace => w.classes.Agrees t.classes) step w fun _ _ => True

section KeepsTypes

variable {α β : Type}

/-- The known types agree along two steps. -/
theorem KeepsTypes.bind {x : Lower α} {k : α → Lower β} (hx : KeepsTypes x) (hk : ∀ a, KeepsTypes (k a)) : KeepsTypes (x >>= k) :=
  fun w => Moves.bind (R := fun w t : Workspace => w.classes.Agrees t.classes) (fun _ _ _ => .trans) (hx w) fun a t _ _ => hk a t

/-- Reading the workspace changes no types. -/
theorem keepsTypes_get {k : Workspace → Lower α} (hk : ∀ w, KeepsTypes (k w)) : KeepsTypes (get >>= k) :=
  fun w => hk w w

/-- An answer that is there already changes no types. -/
theorem keepsTypes_answer (result : Except Fault α) : KeepsTypes (answer result) :=
  fun _ => (Moves.answer (.refl _) result).mono fun _ _ _ _ => trivial

/-- Doing nothing changes no types. -/
theorem keepsTypes_pure (a : α) : KeepsTypes (pure a) :=
  fun _ => ⟨.refl _, trivial⟩

/-- Failing changes no types. -/
theorem keepsTypes_throw (fault : Fault) : KeepsTypes (throw fault : Lower α) :=
  fun _ => .refl _

/-- Code is written without a change to the types. -/
theorem keepsTypes_emit (step : Emit α) : KeepsTypes (emit step) := by
  intro w
  unfold Moves
  rw [emit, ensures_focus]
  exact (Ensures.any step _).mono (fun _ _ _ => ⟨.refl _, trivial⟩) fun _ _ _ => .refl _

/-- The class file is changed without a change to the types. -/
theorem keepsTypes_inFile (step : ClassFile.Step α) (fault : FileFault → Fault) : KeepsTypes (inFile step fault) := by
  intro w
  unfold Moves
  rw [inFile, ensures_focus]
  exact (Ensures.any step _).mono (fun _ _ _ => ⟨.refl _, trivial⟩) fun _ _ _ => .refl _

/-- The body of a factory is written without a change to the types. -/
theorem keepsTypes_assemble (tracing : Bool) (step : Emit Unit) : KeepsTypes (assemble tracing step) := by
  intro w
  unfold Moves Ensures assemble
  cases step ⟨w.file.pool, .create 0 tracing⟩ with
  | ok _ _ => exact ⟨.refl _, trivial⟩
  | error _ _ => exact .refl _

/-- A factory that is installed joins the enclosing type, and no other one changes. -/
theorem keepsTypes_install {factory : MethodDecl} (hfactory : factory.IsFactory) (code : CodeBuffer) (span : Span) :
    KeepsTypes (Factory.install factory code span) := by
  unfold Factory.install
  refine keepsTypes_get fun _ => (keepsTypes_answer _).bind fun _ => (keepsTypes_inFile _ _).bind fun _ w => ?_
  refine ⟨?_, trivial⟩
  dsimp only
  cases hadd : w.classes.addMethod? factory.declaring factory with
  | none => exact .refl _
  | some u => exact .addMethod? hfactory hadd

/-- Making a factory changes the types by the factory at the most. -/
theorem keepsTypes_create (ctx : Context) (target : JType) (exact : List Param) (span : Span) :
    KeepsTypes (Factory.create ctx target exact span) := by
  unfold Factory.create
  refine keepsTypes_get fun w => (keepsTypes_assemble _ _).bind fun code t => ?_
  have hname : Moves (fun w t : Workspace => w.classes.Agrees t.classes) (Factory.takeName ctx.method) t
      fun name _ => IsFactoryName name := ⟨.refl _, isFactoryName_factoryName _ _⟩
  refine Moves.bind (R := fun w t : Workspace => w.classes.Agrees t.classes) (fun _ _ _ => .trans) hname fun name u _ hname => ?_
  refine KeepsTypes.bind (keepsTypes_install ?_ code span) (fun _ => keepsTypes_pure _) u
  exact ⟨Factory.isStatic_access w.file.isInterface, hname⟩

end KeepsTypes

/-- Linking a call site changes no types. -/
theorem keepsTypes_link (ctx : Context) (target : Target) (f : FunctionalInterface) (b : Binding) :
    KeepsTypes (CallSite.link ctx target f b) := by
  rw [CallSite.link_eq]
  refine keepsTypes_get fun _ => .bind ?_ fun _ => (keepsTypes_inFile _ _).bind fun _ => (keepsTypes_emit _).bind fun _ => keepsTypes_pure _
  unfold CallSite.writeReceiver
  split
  · exact keepsTypes_pure _
  · exact keepsTypes_emit _

/-- Binding a reference changes the types by a factory at the most. -/
theorem keepsTypes_bindReference (ctx : Context) (r : Reference) (exact : List Param) : KeepsTypes (bindReference ctx r exact) := by
  unfold bindReference
  split
  · unfold bindCreation
    split
    · exact keepsTypes_throw _
    · exact (keepsTypes_create _ _ _ _).bind fun _ => keepsTypes_get fun _ => keepsTypes_pure _
  · unfold bindMember
    exact keepsTypes_get fun _ => (keepsTypes_answer _).bind fun _ => keepsTypes_pure _

/-- Whatever becomes of a reference, the known types differ in factories only. -/
theorem keepsTypes_checkedReference (ctx : Context) (r : Reference) : KeepsTypes (checkedReference ctx r) := by
  unfold checkedReference reference
  refine keepsTypes_get fun _ => (keepsTypes_answer _).bind fun _ => keepsTypes_get fun _ => ?_
  split
  · exact keepsTypes_pure _
  · rw [linkReference_eq]
    exact (keepsTypes_get fun _ => (keepsTypes_answer _).bind fun _ => (keepsTypes_bindReference _ _ _).bind fun _ =>
      (keepsTypes_link _ _ _ _).bind fun _ => keepsTypes_pure _).bind fun _ => keepsTypes_pure _

end Lower

end Linkage
