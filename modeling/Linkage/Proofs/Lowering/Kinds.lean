import Linkage.Proofs.Emission.Kinds
import Linkage.Proofs.Lowering.Effects
import Linkage.Proofs.Lowering.Run

/-!
# Lowering without kinds

Under which kind a reference writes the names of its types decides nothing. Two references that differ in kinds only are lowered to outcomes
that do, or fail with faults that do and with the same text, and in both cases they leave the same class file and the same code, and known
types that differ in the kinds of a factory's types at most (`Lower.matched_checkedReference`).
-/

namespace Linkage

/-! ## What the type checker found -/

/-- What a type stands for does not depend on its kinds, except for the kinds of unknown names. -/
theorem ClassTable.canonicalType_untag (t : ClassTable) (type : JType) :
    (t.canonicalType type.untag).untag = (t.canonicalType type).untag := by
  induction type with
  | array c ih => simp only [JType.untag, canonicalType, ih]
  | named k n =>
    simp only [JType.untag, canonicalType]
    cases t.underlying? n <;> rfl
  | _ => rfl

/-- A functional interface is found without regard to its kind. -/
theorem FunctionalInterface.find?_untag (classes : ClassTable) (type : JType) : find? classes type.untag = find? classes type := by
  rw [find?, JType.internalName?_untag, find?]

namespace Reference

/-- What is found for a reference without kinds is what is found for it, kinds apart. -/
theorem findings_withoutKinds (r : Reference) (classes : ClassTable) :
    r.withoutKinds.findings classes =
      Prod.map id (List.map (Option.map JType.untag)) <$> (r.findings classes).mapError FallbackReason.withoutKinds := by
  unfold findings
  rw [withoutKinds]
  cases r.interface with
  | none => rfl
  | some type =>
    simp only [Option.map_some, FunctionalInterface.find?_untag]
    cases FunctionalInterface.find? classes type with
    | none => rfl
    | some f => cases r.inferred <;> rfl

/-- References that are equal up to kinds are to constructors alike. -/
theorem isCreation_congr {r r' : Reference} (h : r.withoutKinds = r'.withoutKinds) : r.isCreation = r'.isCreation := by
  have hmember := congrArg Reference.member h
  simp only [withoutKinds] at hmember
  rw [isCreation, hmember, isCreation]

end Reference

/-! ## Call sites -/

namespace Binding

/-- Whether a receiver is captured does not depend on kinds. -/
theorem captured?_withoutKinds (b : Binding) (target : Target) : b.withoutKinds.captured? target = b.captured? target := by
  cases target <;> rfl

/-- What is captured of an untagged target is what is captured, untagged. -/
theorem captured?_target_withoutKinds (b : Binding) (target : Target) :
    b.captured? target.withoutKinds = (b.captured? target).map Expr.withoutKinds := by
  cases target with
  | type type span => rfl
  | value e =>
    change (if b.method.isStatic || b.isCreation then none else some e.withoutKinds) =
      Option.map Expr.withoutKinds (if b.method.isStatic || b.isCreation then none else some e)
    split <;> rfl

/-- The method type at a call site does not show kinds. -/
theorem instantiatedDescriptor_withoutKinds (b : Binding) : b.withoutKinds.instantiatedDescriptor = b.instantiatedDescriptor := by
  rw [instantiatedDescriptor, withoutKinds, Param.map_type_untag, MethodDecl.withoutKinds, methodDescriptor_untag,
    instantiatedDescriptor]

end Binding

namespace CallSite

/-- A call site shows no kinds of its binding. -/
theorem describe_congr {b b' : Binding} (h : b.withoutKinds = b'.withoutKinds) (classes : ClassTable) (target : Target)
    (f : FunctionalInterface) : describe classes target f b = describe classes target f b' := by
  have hkinds : ∀ b : Binding, describe classes target f b.withoutKinds = describe classes target f b := by
    intro b
    simp only [describe, b.captured?_withoutKinds, b.instantiatedDescriptor_withoutKinds]
    simp only [Binding.withoutKinds, JType.constantName_untag, MethodDecl.descriptor_withoutKinds]
    rfl
  rw [← hkinds b, h, hkinds b']

/-- Nor does it show those of its target. -/
theorem describe_target_withoutKinds (classes : ClassTable) (target : Target) (f : FunctionalInterface) (b : Binding) :
    describe classes target.withoutKinds f b = describe classes target f b := by
  have hcaptured : ∀ captured : Option Expr,
      callSiteDescriptor ((captured.map Expr.withoutKinds).map fun e => classes.canonicalType e.type) f.type =
        callSiteDescriptor (captured.map fun e => classes.canonicalType e.type) f.type := by
    intro captured
    cases captured with
    | none => rfl
    | some e =>
      have htype : (classes.canonicalType e.withoutKinds.type).descriptor = (classes.canonicalType e.type).descriptor := by
        rw [e.type_withoutKinds]
        exact JType.descriptor_congr (classes.canonicalType_untag e.type)
      simp only [Option.map_some, callSiteDescriptor, Option.toList_some, methodDescriptor, List.map_cons, List.map_nil, htype]
  simp only [describe, b.captured?_target_withoutKinds, hcaptured, Option.isSome_map]

/-- Whatever the kinds in a reference, its call site is linked by the same step. -/
theorem link_congr {ctx : Context} (hctx : ctx.emitReceiver = Expr.emit) {target target' : Target} {b b' : Binding}
    (htarget : target.withoutKinds = target'.withoutKinds) (hb : b.withoutKinds = b'.withoutKinds) (f : FunctionalInterface) :
    link ctx target f b = link ctx target' f b' := by
  have hwrite : ∀ target, writeReceiver ctx b target.withoutKinds = writeReceiver ctx b target := by
    intro target
    rw [writeReceiver, b.captured?_target_withoutKinds, writeReceiver, hctx]
    cases b.captured? target with
    | none => rfl
    | some e => exact congrArg Lower.emit e.emit_withoutKinds
  have hreceiver : writeReceiver ctx b target = writeReceiver ctx b' target' := by
    rw [← hwrite, htarget, hwrite, writeReceiver, ← b.captured?_withoutKinds, hb, b'.captured?_withoutKinds, writeReceiver]
  have hdescribe : ∀ classes, describe classes target f b = describe classes target' f b' := by
    intro classes
    rw [← describe_target_withoutKinds, htarget, describe_target_withoutKinds, describe_congr hb]
  have howner : b.ownerIsInterface = b'.ownerIsInterface := by injection hb
  rw [link_eq, link_eq, hreceiver, howner]
  simp only [hdescribe]

end CallSite

namespace Lower

variable {α : Type} {w v : Workspace} {x y : Lower α} {R : α → Workspace → α → Workspace → Prop}

/-- Faults that differ in kinds only, in workspaces that do. -/
def FailAlike (e : Fault) (s : Workspace) (e' : Fault) (t : Workspace) : Prop :=
  e.withoutKinds = e'.withoutKinds ∧ s.SameButKinds t

/-- Faults that differ in kinds only may leave one workspace. -/
theorem failAlike_of_eq (h : Matched x w y v R fun e s e' t => e.withoutKinds = e'.withoutKinds ∧ s = t) : Matched x w y v R FailAlike :=
  h.mono (fun _ _ _ _ h => h) fun _ s _ _ h => ⟨h.1, h.2 ▸ .refl s⟩

/-- A step does the same twice from one workspace. -/
theorem matched_refl (step : Lower α) (w : Workspace) : Matched step w step w (fun a s b t => a = b ∧ s = t) FailAlike :=
  failAlike_of_eq ((Matched.refl step w).mono (fun _ _ _ _ h => h) fun _ _ _ _ h => ⟨congrArg Fault.withoutKinds h.1, h.2⟩)

/-- Emission does the same in workspaces that are equal up to kinds. -/
theorem matched_emit (step : Emit α) (h : w.SameButKinds v) :
    Matched (emit step) w (emit step) v (fun a s b t => a = b ∧ s.SameButKinds t) FailAlike := by
  have hemission : w.emission = v.emission := by rw [Workspace.emission, h.file, h.code, Workspace.emission]
  have hput : ∀ e, (w.withEmission e).SameButKinds (v.withEmission e) := by
    intro e
    refine ⟨?_, rfl, h.names, h.classes⟩
    simp only [Workspace.withEmission, Workspace.withPool, h.file]
  exact (Matched.focus hemission hput).mono (fun _ _ _ _ h => h) fun _ _ _ _ h => ⟨congrArg Fault.withoutKinds h.1, h.2⟩

/-- The class file is changed alike in workspaces that are equal up to kinds. -/
theorem matched_inFile (step : ClassFile.Step α) (fault : FileFault → Fault) (h : w.SameButKinds v) :
    Matched (inFile step fault) w (inFile step fault) v (fun a s b t => a = b ∧ s.SameButKinds t) FailAlike := by
  have hput : ∀ file, { w with file := file }.SameButKinds { v with file := file } :=
    fun _ => ⟨rfl, h.code, h.names, h.classes⟩
  exact (Matched.focus h.file hput).mono (fun _ _ _ _ h => h) fun _ _ _ _ h => ⟨congrArg Fault.withoutKinds h.1, h.2⟩

/-- Bodies that differ in the kinds of a fault only are assembled alike. -/
theorem indistinct_assemble {x y : Emit Unit} (h : Indistinct Fault.withoutKinds x y) (tracing : Bool) :
    Indistinct Fault.withoutKinds (assemble tracing x) (assemble tracing y) := by
  have hrun : ∀ (x : Emit Unit) (w : Workspace), shown Fault.withoutKinds (assemble tracing x) w =
      match shown Fault.withoutKinds x ⟨w.file.pool, .create 0 tracing⟩ with
      | (.ok _, e) => (.ok e.code, w.withPool e.pool)
      | (.error fault, e) => (.error fault, w.withPool e.pool) := by
    intro x w
    unfold shown assemble
    cases x ⟨w.file.pool, .create 0 tracing⟩ <;> rfl
  intro w
  rw [hrun, hrun, h]

end Lower

/-! ## Factories -/

namespace Factory

variable {factory factory' : MethodDecl} {w : Workspace}

/-- Factories that differ in kinds only join known types that do. -/
theorem looksLike_addMethod? (h : factory.withoutKinds = factory'.withoutKinds) (t : ClassTable) (enclosing : String) :
    ((t.addMethod? enclosing factory).getD t).LooksLike ClassDecl.withoutKinds ((t.addMethod? enclosing factory').getD t) := by
  obtain ⟨hname, hdescriptor⟩ := MethodDecl.signature_congr h
  intro name
  unfold ClassTable.addMethod?
  cases hdecl : t.get? enclosing with
  | none => rfl
  | some decl =>
    have hdeclares : decl.declares factory.name factory.descriptor = decl.declares factory'.name factory'.descriptor := by
      rw [hname, hdescriptor]
    simp only [Option.bind_eq_bind, Option.bind_some, ClassDecl.addMethod?, hdeclares]
    split
    · rfl
    · simp only [Option.bind_some, Option.pure_def, Option.getD_some, ClassTable.get?_register]
      split
      · have hjoined : MethodDecl.withoutKinds { factory with declaring := decl.name } =
            MethodDecl.withoutKinds { factory' with declaring := decl.name } :=
          congrArg (fun m : MethodDecl => { m with declaring := decl.name }) h
        simp only [Option.map_some, ClassDecl.withoutKinds, List.map_append, List.map_cons, List.map_nil, hjoined]
      · rfl

/-- Factories that differ in kinds only are installed alike. -/
theorem matched_install (h : factory.withoutKinds = factory'.withoutKinds) (code : CodeBuffer) (span : Span) (w : Workspace) :
    Matched (install factory code span) w (install factory' code span) w (fun _ s _ t => s.SameButKinds t) Lower.FailAlike := by
  obtain ⟨hname, hdescriptor⟩ := MethodDecl.signature_congr h
  have haccess : factory.access = factory'.access := by injection h
  have hdeclaring : factory.declaring = factory'.declaring := by injection h
  unfold install
  simp only [hname, haccess, hdeclaring, hdescriptor]
  refine Matched.get_bind ?_
  refine Matched.bind (Lower.matched_refl _ w) ?_
  rintro _ w₁ _ _ ⟨-, rfl⟩
  refine Matched.bind (Lower.matched_refl _ w₁) ?_
  rintro _ w₂ _ _ ⟨-, rfl⟩
  exact .ok ⟨rfl, rfl, rfl, looksLike_addMethod? h w₂.classes factory'.declaring⟩

/-- The factories for two target types that differ in kinds only, with parameters that do, differ in kinds only. -/
theorem matched_create (ctx : Context) {target target' : JType} {exact exact' : List Param}
    (htarget : (w.classes.canonicalType target).untag = (w.classes.canonicalType target').untag)
    (hexact : exact.map Param.untag = exact'.map Param.untag) (span : Span) :
    Matched (create ctx target exact span) w (create ctx target' exact' span) w
      (fun m s n t => m.withoutKinds = n.withoutKinds ∧ s.SameButKinds t) Lower.FailAlike := by
  have hbody : Indistinct Fault.withoutKinds (body (w.scope ctx.policy) (w.classes.canonicalType target) exact span)
      (body (w.scope ctx.policy) (w.classes.canonicalType target') exact' span) := by
    have hgiven := indistinct_body_untag (w.scope ctx.policy) (w.classes.canonicalType target) exact span
    rw [htarget, hexact] at hgiven
    exact hgiven.symm.trans (indistinct_body_untag _ _ exact' span)
  have hfactory : ∀ name access declaring,
      (MethodDecl.mk name exact (w.classes.canonicalType target) access declaring).withoutKinds =
        (MethodDecl.mk name exact' (w.classes.canonicalType target') access declaring).withoutKinds := by
    intro name access declaring
    simp only [MethodDecl.withoutKinds, htarget, hexact]
  unfold create
  refine Matched.get_bind ?_
  -- until the factory is installed both runs are in one workspace
  refine Matched.bind (Lower.failAlike_of_eq ((Lower.indistinct_assemble hbody ctx.settings.tracing).matched w)) ?_
  rintro code w₁ _ _ ⟨rfl, rfl⟩
  refine Matched.bind (Lower.matched_refl (takeName ctx.method) w₁) ?_
  rintro name w₂ _ _ ⟨rfl, rfl⟩
  refine Matched.bind (matched_install (hfactory _ _ _) code span w₂) ?_
  intro _ s _ t hst
  exact .pure ⟨hfactory _ _ _, hst⟩

end Factory

/-! ## References -/

namespace CallSite

variable {ctx : Context} {w v : Workspace} {target target' : Target} {f : FunctionalInterface} {b b' : Binding}

/-- Bindings that differ in kinds only are linked alike. -/
theorem matched_link (hctx : ctx.emitReceiver = Expr.emit) (htarget : target.withoutKinds = target'.withoutKinds)
    (hb : b.withoutKinds = b'.withoutKinds) (hwv : w.SameButKinds v)
    (hdescribe : describe w.classes target f b = describe v.classes target f b) :
    Matched (link ctx target f b) w (link ctx target' f b') v (fun a s c t => a = c ∧ s.SameButKinds t) Lower.FailAlike := by
  have hwrite : Matched (writeReceiver ctx b target) w (writeReceiver ctx b target) v (fun _ s _ t => s.SameButKinds t)
      Lower.FailAlike := by
    unfold writeReceiver
    cases b.captured? target with
    | none => exact .pure hwv
    | some e => exact (Lower.matched_emit _ hwv).mono (fun _ _ _ _ h => h.2) fun _ _ _ _ h => h
  -- one and the same step is run twice, in workspaces of which it sees no difference
  rw [← link_congr hctx htarget hb, link_eq]
  refine Matched.get_bind ?_
  rw [← hdescribe]
  refine Matched.bind hwrite ?_
  intro _ w₁ _ v₁ h₁
  refine Matched.bind (Lower.matched_inFile _ .file h₁) ?_
  rintro site w₂ _ v₂ ⟨rfl, h₂⟩
  refine Matched.bind (Lower.matched_emit _ h₂) ?_
  rintro _ w₃ _ v₃ ⟨-, h₃⟩
  exact .pure ⟨rfl, h₃⟩

end CallSite

namespace Lower

variable {ctx : Context} {r r' : Reference} {w : Workspace} {exact exact' : List Param}

/-- Bindings that differ in kinds only, in workspaces that do and that show the same of the captured receiver. -/
def SameBinding (r : Reference) (f : FunctionalInterface) (b : Binding) (s : Workspace) (b' : Binding) (t : Workspace) : Prop :=
  b.withoutKinds = b'.withoutKinds ∧ s.SameButKinds t ∧
    CallSite.describe s.classes r.target f b = CallSite.describe t.classes r.target f b

/-- References to constructors that are equal up to kinds are bound alike. -/
theorem matched_bindCreation (hr : r.withoutKinds = r'.withoutKinds) (hexact : exact.map Param.untag = exact'.map Param.untag)
    (f : FunctionalInterface) :
    Matched (bindCreation ctx r exact) w (bindCreation ctx r' exact') w (SameBinding r f) FailAlike := by
  have hspan : r.span = r'.span := by injection hr
  have htarget : r.target.withoutKinds = r'.target.withoutKinds := by injection hr
  unfold bindCreation
  cases hgiven : r.target with
  | value e =>
    cases hgiven' : r'.target with
    | value e' => exact .throw ⟨by rw [hspan], .refl w⟩
    | type type' span' =>
      rw [hgiven, hgiven'] at htarget
      cases htarget
  | type type span =>
    cases hgiven' : r'.target with
    | value e' =>
      rw [hgiven, hgiven'] at htarget
      cases htarget
    | type type' span' =>
      rw [hgiven, hgiven'] at htarget
      have htype : type.untag = type'.untag := by injection htarget
      have hcanonical : (w.classes.canonicalType type).untag = (w.classes.canonicalType type').untag := by
        rw [← ClassTable.canonicalType_untag, htype, ClassTable.canonicalType_untag]
      rw [hspan]
      refine Matched.bind (Factory.matched_create ctx hcanonical hexact r'.span) ?_
      rintro factory s factory' t ⟨hfactory, hst⟩
      refine Matched.get_bind ?_
      rw [hst.file]
      refine .pure ⟨?_, hst, ?_⟩
      · simp only [Binding.withoutKinds, hfactory, hexact]
      · -- nothing is captured of a type, so the known types are not looked at
        rw [hgiven]
        rfl

/-- References to methods that are equal up to kinds are bound alike. -/
theorem matched_bindMember (hr : r.withoutKinds = r'.withoutKinds) (hexact : exact.map Param.untag = exact'.map Param.untag)
    (f : FunctionalInterface) :
    Matched (bindMember ctx r exact) w (bindMember ctx r' exact') w (SameBinding r f) FailAlike := by
  have htype : r.target.staticType.untag = r'.target.staticType.untag := by
    have htarget := congrArg (fun r : Reference => r.target.staticType) hr
    simpa only [Reference.withoutKinds, Target.staticType_withoutKinds] using htarget
  have howner : (w.classes.canonicalType r.target.staticType).untag = (w.classes.canonicalType r'.target.staticType).untag := by
    rw [← ClassTable.canonicalType_untag, htype, ClassTable.canonicalType_untag]
  have hname : (w.classes.canonicalType r.target.staticType).internalName? =
      (w.classes.canonicalType r'.target.staticType).internalName? := by
    rw [← JType.internalName?_untag, howner, JType.internalName?_untag]
  unfold bindMember
  refine Matched.get_bind ?_
  refine Matched.bind (failAlike_of_eq ((Indistinct.answer ((w.scope ctx.policy).resolve_alike hr hexact)).matched w)) ?_
  rintro method v _ _ ⟨rfl, rfl⟩
  refine .pure ⟨?_, .refl v, rfl⟩
  simp only [Binding.withoutKinds, howner, hname, hexact]

/-- References that are equal up to kinds are bound alike, or fail alike. -/
theorem matched_bindReference (hr : r.withoutKinds = r'.withoutKinds) (hexact : exact.map Param.untag = exact'.map Param.untag)
    (f : FunctionalInterface) :
    Matched (bindReference ctx r exact) w (bindReference ctx r' exact') w (SameBinding r f) FailAlike := by
  unfold bindReference
  rw [← Reference.isCreation_congr hr]
  split
  · exact matched_bindCreation hr hexact f
  · exact matched_bindMember hr hexact f

/-- References that are equal up to kinds are linked alike, or fail alike. -/
theorem matched_linkReference (hctx : ctx.emitReceiver = Expr.emit) (hr : r.withoutKinds = r'.withoutKinds) (f : FunctionalInterface)
    {types types' : List (Option JType)} (htypes : types.map (Option.map JType.untag) = types'.map (Option.map JType.untag)) :
    Matched (linkReference ctx r f types) w (linkReference ctx r' f types') w
      (fun l s k t => l.withoutKinds = k.withoutKinds ∧ s.SameButKinds t) FailAlike := by
  have hspan : r.span = r'.span := by injection hr
  rw [linkReference_eq, linkReference_eq]
  refine Matched.get_bind ?_
  rw [← hspan]
  refine Matched.bind (failAlike_of_eq (Matched.answer (FunctionalInterface.exactParams_alike w.classes r.span f htypes) w)) ?_
  rintro exact _ exact' _ ⟨hexact, rfl, rfl⟩
  refine Matched.bind (matched_bindReference hr hexact f) ?_
  rintro b s b' t ⟨hb, hst, hdescribe⟩
  refine Matched.bind (CallSite.matched_link hctx (congrArg Reference.target hr) hb hst hdescribe) ?_
  rintro site s' _ t' ⟨rfl, hst'⟩
  have hmethod : b.method.withoutKinds = b'.method.withoutKinds := congrArg Binding.method hb
  refine .pure ⟨?_, hst'⟩
  rw [← Reference.isCreation_congr hr]
  simp only [Linked.withoutKinds, hb]
  split <;> simp only [Option.map_some, Option.map_none, hmethod]

/-- References that are equal up to kinds come to the same outcome but for kinds, or fail alike. -/
theorem matched_reference (hctx : ctx.emitReceiver = Expr.emit) (hr : r.withoutKinds = r'.withoutKinds) :
    Matched (reference ctx r) w (reference ctx r') w (fun o s o' t => o.withoutKinds = o'.withoutKinds ∧ s.SameButKinds t) FailAlike := by
  unfold reference
  refine Matched.get_bind ?_
  have hfindings := r.findings_withoutKinds w.classes
  rw [hr, r'.findings_withoutKinds] at hfindings
  cases hgiven : r.findings w.classes with
  | error reason =>
    cases hgiven' : r'.findings w.classes with
    | error reason' =>
      rw [hgiven, hgiven'] at hfindings
      have hreason : reason'.withoutKinds = reason.withoutKinds := Except.error.inj hfindings
      exact .pure ⟨congrArg Outcome.fallback hreason.symm, .refl w⟩
    | ok found' =>
      rw [hgiven, hgiven'] at hfindings
      cases hfindings
  | ok found =>
    cases hgiven' : r'.findings w.classes with
    | error reason' =>
      rw [hgiven, hgiven'] at hfindings
      cases hfindings
    | ok found' =>
      obtain ⟨f, types⟩ := found
      obtain ⟨f', types'⟩ := found'
      rw [hgiven, hgiven'] at hfindings
      obtain ⟨rfl, htypes⟩ := Prod.mk.inj (Except.ok.inj hfindings)
      refine Matched.bind (matched_linkReference hctx hr f' htypes.symm) ?_
      rintro l s k t ⟨hlk, hst⟩
      exact .pure ⟨congrArg Outcome.linked hlk, hst⟩

/-- References that differ in kinds only, lowered in the same session, are lowered to outcomes that differ in kinds only, with one and the
same call site if they are linked, or fail with faults that do, and with the same text. In both cases they leave the same class file, code
and names, and known types that are the same but for kinds. -/
theorem matched_checkedReference (ctx : Context) (hctx : ctx.emitReceiver = Expr.emit) (w : Workspace)
    (hr : r.withoutKinds = r'.withoutKinds) :
    Matched (checkedReference ctx r) w (checkedReference ctx r') w
      (fun o s o' t => o.withoutKinds = o'.withoutKinds ∧ s.SameButKinds t)
      fun e s e' t => e.withoutKinds = e'.withoutKinds ∧ e.message = e'.message ∧ s.SameButKinds t := by
  have hchecked : Matched (checkedReference ctx r) w (checkedReference ctx r') w
      (fun o s o' t => o.withoutKinds = o'.withoutKinds ∧ s.SameButKinds t) FailAlike := by
    unfold checkedReference
    refine Matched.get_bind ?_
    refine Matched.bind (matched_refl (answer (checkContext ctx w)) w) ?_
    rintro _ v _ _ ⟨-, rfl⟩
    exact matched_reference hctx hr
  exact hchecked.mono (fun _ _ _ _ h => h) fun _ _ _ _ h => ⟨h.1, Fault.message_congr h.1, h.2⟩

/-! ## One reference, written twice -/

/-- The class file of `demo/Main`, and the interface `demo/Sizer`, which has the one method `int size(Object)`. -/
def sampleSizer : Workspace where
  classes := ClassTable.empty.registerAll [ClassTable.stringClass, (ClassDecl.ofInterface "demo/Sizer").addMethods
    [{ name := "size", params := [.ofType "o" .object], result := .int, access := .accPublic ||| .accAbstract }]]
  names := ⟨"demo/Main", 0⟩
  file := .create "demo/Main" false {}
  code := {}

/-- `String::length` for `demo/Sizer`, where a string is measured. The two names are written under the given kinds. -/
def sampleLength (text sizer : NamedKind) : Reference :=
  ⟨.type (.named text WellKnown.string) .unknown, "length", some (.named sizer "demo/Sizer"), some [some (.named text WellKnown.string)],
    .unknown⟩

/-- In the method `main` of `demo/Main`. -/
def sampleMain : Context :=
  ⟨{}, some "main", .language, Expr.emit⟩

/-- The reference may be written as it should be, or with the class for an interface and the interface for a class. -/
theorem matched_checkedReference_sampleLength :
    sampleMain.emitReceiver = Expr.emit ∧
      (sampleLength .ofClass .ofInterface).withoutKinds = (sampleLength .ofInterface .ofClass).withoutKinds ∧
      (completed (checkedReference sampleMain (sampleLength .ofClass .ofInterface)) sampleSizer).isSome = true ∧
      Matched (checkedReference sampleMain (sampleLength .ofClass .ofInterface)) sampleSizer
        (checkedReference sampleMain (sampleLength .ofInterface .ofClass)) sampleSizer
        (fun o s o' t => o.withoutKinds = o'.withoutKinds ∧ s.SameButKinds t)
        fun e s e' t => e.withoutKinds = e'.withoutKinds ∧ e.message = e'.message ∧ s.SameButKinds t := by
  have hkinds : (sampleLength .ofClass .ofInterface).withoutKinds = (sampleLength .ofInterface .ofClass).withoutKinds := rfl
  exact ⟨rfl, hkinds, by decide +kernel, matched_checkedReference sampleMain rfl sampleSizer hkinds⟩

end Lower

end Linkage
