import Linkage.Lowering.Basic
import Linkage.Proofs.FunctionalInterface.Parameters
import Linkage.Proofs.Lowering.Run
import Linkage.Proofs.Resolution.Rule

/-!
# The parameters of a call site

When a call site is first run, the platform links it only if the parameters of three method types go together: those that the interface
method was declared with, those it has at the site, and those of the method that implements it. A reference that lowering answers by a
call site meets these conditions (`Linked.Linkable`), in whatever workspace and by whatever writer of receivers.
-/

namespace Linkage

/-- What the implementing method is called with: the exact parameters if it is static, a factory or called on the captured receiver; if
it is an instance method of the target type, the first of them is the receiver and the others are passed. -/
def Linked.Applies (classes : ClassTable) (target : Target) (f : FunctionalInterface) (l : Linked) : Prop :=
  if l.binding.isCreation || l.binding.method.isStatic then
    l.site.descriptor = methodDescriptor [] f.type ∧ classes.Passes l.binding.exact l.binding.method.params
  else
    match target with
    | .type type _ => l.site.descriptor = methodDescriptor [] f.type ∧
      ∃ receiver rest, l.binding.exact = receiver :: rest ∧ classes.isSubtype receiver.type type = true ∧
        classes.Passes rest l.binding.method.params
    | .value e => l.site.descriptor = methodDescriptor [classes.canonicalType e.type] f.type ∧
      classes.Passes l.binding.exact l.binding.method.params

/-- The conditions on the parameters of a call site: its method types are those of the interface method as declared, of the exact
parameters and of the implementing method; the exact parameters specialise the declared ones, and the implementing method applies to
them. -/
structure Linked.Linkable (classes : ClassTable) (target : Target) (f : FunctionalInterface) (l : Linked) : Prop where
  erased : l.site.erasedDescriptor = methodDescriptor f.method.paramTypes f.method.result
  instantiated : l.site.instantiatedDescriptor = methodDescriptor (l.binding.exact.map (·.type)) l.binding.method.result
  implementation : l.site.implementationDescriptor = methodDescriptor l.binding.method.paramTypes l.binding.method.result
  specialised : List.Forall₂ (Param.Specialises classes) f.method.params l.binding.exact
  applies : l.Applies classes target f

namespace CallSite

/-- Adding the constants of a call site gives it its indices and changes nothing else of its record. -/
theorem ensures_addConstants (bootstrap : BootstrapMethod) (ownerIsInterface : Bool) (c : CallSite) (f : ClassFile) :
    Ensures (addConstants bootstrap ownerIsInterface c) f
      (fun site _ => site = { c with bootstrapIndex := site.bootstrapIndex, constantIndex := site.constantIndex })
      (fun _ _ => True) := by
  unfold addConstants
  refine .last fun _ _ => .last fun _ _ => .last fun _ _ => .last fun _ _ => .last fun _ _ => .last fun _ _ => .last fun _ _ => ?_
  rw [ensures_pure]

/-- The call site that is linked is the one that was described, with the two indices filled in. -/
theorem ensures_link (ctx : Context) (target : Target) (f : FunctionalInterface) (b : Binding) (w : Workspace) :
    Ensures (link ctx target f b) w
      (fun site _ => site = { describe w.classes target f b with
        bootstrapIndex := site.bootstrapIndex, constantIndex := site.constantIndex })
      (fun _ _ => True) := by
  rw [link_eq, ensures_bind, ensures_get]
  refine .last fun _ t => ?_
  rw [ensures_bind, Lower.inFile, ensures_focus]
  refine (ensures_addConstants _ _ _ t.file).mono ?_ (fun _ _ _ => trivial)
  intro site g hsite
  refine .last fun _ u => ?_
  rw [ensures_pure]
  exact hsite

end CallSite

/-- A factory has the exact parameters. -/
theorem Factory.ensures_create (ctx : Context) (target : JType) (exact : List Param) (span : Span) (w : Workspace) :
    Ensures (create ctx target exact span) w (fun factory _ => factory.params = exact) (fun _ _ => True) := by
  unfold create
  refine .last fun _ _ => .last fun _ _ => .last fun _ _ => .last fun _ _ => ?_
  rw [ensures_pure]

namespace Lower

variable {ctx : Context} {r : Reference} {exact : List Param} {w : Workspace}

/-- A reference to a constructor is bound to a factory with the exact parameters. -/
theorem ensures_bindCreation : Ensures (bindCreation ctx r exact) w
    (fun b _ => b.isCreation = true ∧ b.exact = exact ∧ b.method.params = exact) (fun _ _ => True) := by
  unfold bindCreation
  cases r.target with
  | value e => trivial
  | type type span =>
    rw [ensures_bind]
    refine (Factory.ensures_create ctx type exact r.span w).mono ?_ (fun _ _ _ => trivial)
    intro factory t hparams
    rw [ensures_bind, ensures_get, ensures_pure]
    exact ⟨rfl, rfl, hparams⟩

/-- A reference to a method is bound to the method that it denotes, and nothing is changed. -/
theorem ensures_bindMember : Ensures (bindMember ctx r exact) w
    (fun b t => t = w ∧ b.isCreation = false ∧ b.exact = exact ∧ (w.scope ctx.policy).resolve r exact = .ok b.method)
    (fun _ _ => True) := by
  unfold bindMember
  rw [ensures_bind, ensures_get, ensures_bind, ensures_answer]
  exact ⟨fun method hmethod => ⟨rfl, rfl, rfl, hmethod⟩, fun _ _ => trivial⟩

/-- The call site of a factory takes nothing, and the exact parameters are the factory's own. -/
theorem applies_of_isCreation {f : FunctionalInterface} {l : Linked} {classes : ClassTable} {target : Target}
    (hcreation : l.binding.isCreation = true) (hparams : l.binding.method.params = l.binding.exact)
    (hdescriptor : l.site.descriptor = callSiteDescriptor ((l.binding.captured? target).map fun e => classes.canonicalType e.type) f.type)
    (known : ClassTable) : l.Applies known target f := by
  unfold Linked.Applies
  rw [hcreation, Bool.true_or, if_pos rfl, hparams]
  refine ⟨?_, .refl known _⟩
  rw [hdescriptor, Binding.captured?_of_isCreation hcreation]
  rfl

/-- The method that a reference denotes applies to the exact parameters, with the receiver that the call site captures or with the first
of them. -/
theorem applies_of_resolve {f : FunctionalInterface} {l : Linked} {s : Scope}
    (hcreation : l.binding.isCreation = false) (hresolve : s.resolve r l.binding.exact = .ok l.binding.method)
    (hdescriptor : l.site.descriptor =
      callSiteDescriptor ((l.binding.captured? r.target).map fun e => s.classes.canonicalType e.type) f.type) :
    l.Applies s.classes r.target f := by
  have hpasses := Scope.passes_of_resolve hresolve
  unfold Linked.Applies
  rw [hcreation, Bool.false_or]
  cases htarget : r.target with
  | type type span =>
    rw [htarget] at hpasses hdescriptor
    cases hstatic : l.binding.method.isStatic with
    | true =>
      rw [hstatic] at hpasses
      exact ⟨hdescriptor, hpasses⟩
    | false =>
      rw [hstatic] at hpasses
      exact ⟨hdescriptor, hpasses⟩
  | value e =>
    rw [htarget, Binding.captured?, hcreation, Bool.or_false] at hdescriptor
    rw [htarget] at hpasses
    cases hstatic : l.binding.method.isStatic with
    | true =>
      rw [hstatic] at hdescriptor
      exact ⟨hdescriptor, hpasses⟩
    | false =>
      rw [hstatic] at hdescriptor
      exact ⟨hdescriptor, hpasses⟩

/-- A linked reference is linkable. -/
theorem ensures_linkReference {f : FunctionalInterface} {inferred : List (Option JType)} :
    Ensures (linkReference ctx r f inferred) w (fun l _ => l.Linkable w.classes r.target f) (fun _ _ => True) := by
  unfold linkReference
  rw [ensures_bind, ensures_get, ensures_bind, ensures_answer]
  refine ⟨fun exact hexact => ?_, fun _ _ => trivial⟩
  have hspecialised := FunctionalInterface.exactParams_eq_ok hexact
  cases hr : r.isCreation with
  | true =>
    simp only [if_true]
    rw [ensures_bind]
    refine ensures_bindCreation.mono ?_ (fun _ _ _ => trivial)
    rintro b v ⟨hcreation, rfl, hparams⟩
    rw [ensures_bind]
    refine (CallSite.ensures_link ctx r.target f b v).mono ?_ (fun _ _ _ => trivial)
    intro site _ hsite
    rw [ensures_pure, hsite]
    exact ⟨rfl, rfl, rfl, hspecialised, applies_of_isCreation hcreation hparams rfl w.classes⟩
  | false =>
    simp only [Bool.false_eq_true, if_false]
    rw [ensures_bind]
    refine ensures_bindMember.mono ?_ (fun _ _ _ => trivial)
    rintro b v ⟨rfl, hcreation, rfl, hresolve⟩
    rw [ensures_bind]
    refine (CallSite.ensures_link ctx r.target f b v).mono ?_ (fun _ _ _ => trivial)
    intro site _ hsite
    rw [ensures_pure, hsite]
    exact ⟨rfl, rfl, rfl, hspecialised, applies_of_resolve (s := v.scope ctx.policy) hcreation hresolve rfl⟩

/-- A reference that is linked is linkable for what was found for it. -/
theorem ensures_reference : Ensures (reference ctx r) w
    (fun outcome _ => ∀ l, outcome = .linked l → ∃ f inferred, r.findings w.classes = .ok (f, inferred) ∧ l.Linkable w.classes r.target f)
    (fun _ _ => True) := by
  unfold reference
  rw [ensures_bind, ensures_get]
  cases hfindings : r.findings w.classes with
  | error reason => exact fun l hl => nomatch hl
  | ok found =>
    obtain ⟨f, inferred⟩ := found
    dsimp only
    rw [ensures_bind]
    refine ensures_linkReference.mono ?_ (fun _ _ _ => trivial)
    intro l _ hl
    rw [ensures_pure]
    rintro _ ⟨⟩
    exact ⟨f, inferred, rfl, hl⟩

/-- A reference that is answered by a call site meets the conditions on parameters under which the platform links the site. -/
theorem linkable_of_checkedReference {l : Linked} {t : Workspace} (h : checkedReference ctx r w = .ok (.linked l) t) :
    ∃ f inferred, r.findings w.classes = .ok (f, inferred) ∧ l.Linkable w.classes r.target f := by
  have hensures : Ensures (checkedReference ctx r) w
      (fun outcome _ => ∀ l, outcome = .linked l → ∃ f inferred, r.findings w.classes = .ok (f, inferred) ∧
        l.Linkable w.classes r.target f) (fun _ _ => True) := by
    unfold checkedReference
    rw [ensures_bind, ensures_get, ensures_bind, ensures_answer]
    exact ⟨fun _ _ => ensures_reference, fun _ _ => trivial⟩
  exact hensures.of_ok h l rfl

/-- `String::concat` in a method of `demo/Main`, for the interface `demo/Join` with the one method `Object join(Object, Object)`, whose
arguments are inferred to be strings. -/
def sampleJoin : Request where
  classes := ClassTable.platform.register ((ClassDecl.ofInterface "demo/Join").addMethods
    [{ name := "join", params := [.ofType "first" .object, .ofType "second" .object], result := .object,
       access := .accPublic ||| .accAbstract }])
  names := ⟨"demo/Main", 0⟩
  code := {}
  settings := {}
  method := some "main"
  policy := .language
  reference := ⟨.type .string .unknown, "concat", some (.ofInterface "demo/Join"), some [some .string, some .string], .unknown⟩

/-- The first string is the receiver, the second is passed. -/
theorem linkable_of_checkedReference_sampleJoin :
    ∃ l t, checkedReference sampleJoin.context sampleJoin.reference (sampleJoin.workspace (.create "demo/Main" false {})) =
      .ok (.linked l) t ∧ ∃ f inferred, sampleJoin.reference.findings sampleJoin.classes = .ok (f, inferred) ∧
        l.Linkable sampleJoin.classes sampleJoin.reference.target f := by
  have hlinked : (checkedReference sampleJoin.context sampleJoin.reference (sampleJoin.workspace (.create "demo/Main" false {}))
      matches .ok (.linked _) _) = true := by decide +kernel
  cases hrun : checkedReference sampleJoin.context sampleJoin.reference (sampleJoin.workspace (.create "demo/Main" false {})) with
  | error fault t =>
    rw [hrun] at hlinked
    cases hlinked
  | ok outcome t =>
    cases outcome with
    | fallback reason =>
      rw [hrun] at hlinked
      cases hlinked
    | linked l => exact ⟨l, t, rfl, linkable_of_checkedReference hrun⟩

end Lower

end Linkage
