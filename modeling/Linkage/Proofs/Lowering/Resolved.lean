import Linkage.Proofs.Lowering.Kinds
import Linkage.Proofs.Resolution.Resolved

/-!
# Lowering resolved references

A reference may be given with every type replaced by what it stands for: as long as its aliases are hidden, lowering it leaves the same call
site, the same class file and the same code (`Lower.sameEffect_checkedReference`). An inferred type that names an alias is not hidden, it is
written into the call site as it is (`Lower.not_sameEffect_alias`).
-/

namespace Linkage

/-! ## What a binding shows -/

/-- What a binding captures of a resolved target is what it captures, resolved. -/
theorem Binding.captured?_resolved (b : Binding) (t : ClassTable) (target : Target) :
    b.captured? (target.resolved t) = (b.captured? target).map (Expr.resolved t) := by
  cases target with
  | type type span => rfl
  | value e =>
    change (if b.method.isStatic || b.isCreation then none else some (e.resolved t)) =
      Option.map (Expr.resolved t) (if b.method.isStatic || b.isCreation then none else some e)
    split <;> rfl

/-- A call site does not show whether its target was resolved. -/
theorem CallSite.describe_resolved (classes : ClassTable) (target : Target) (f : FunctionalInterface) (b : Binding) :
    describe classes (target.resolved classes) f b = describe classes target f b := by
  have htype : ∀ e : Expr, classes.canonicalType (e.resolved classes).type = classes.canonicalType e.type := fun e =>
    Target.canonicalType_staticType_resolved classes (.value e)
  simp only [describe, b.captured?_resolved, Option.map_map, Function.comp_def, htype, Option.isSome_map]

/-! ## Lowering both -/

/-- The workspaces have the same class file and the same code. -/
def Workspace.SameOutput (w v : Workspace) : Prop :=
  w.file = v.file ∧ w.code = v.code

/-- Two outcomes come to the same: both leave the reference to the general way, or both are linked, by the same call site and with the same
class file and code. -/
def Outcome.SameEffect (a : Outcome) (w : Workspace) (b : Outcome) (v : Workspace) : Prop :=
  match a, b with
  | .fallback _, .fallback _ => True
  | .linked l, .linked k => l.site = k.site ∧ w.SameOutput v
  | .fallback _, .linked _ => False
  | .linked _, .fallback _ => False

/-- The method type that the interface method has at the call site, if there is one. -/
def Outcome.instantiated? : Outcome → Option String
  | .linked l => some l.site.instantiatedDescriptor
  | .fallback _ => none

/-- Outcomes of the same effect instantiate the same method type. -/
theorem Outcome.SameEffect.instantiated? {a b : Outcome} {w v : Workspace} (h : a.SameEffect w b v) :
    a.instantiated? = b.instantiated? := by
  cases a with
  | fallback reason =>
    cases b with
    | fallback reason' => rfl
    | linked k => exact h.elim
  | linked l =>
    cases b with
    | fallback reason => exact h.elim
    | linked k => exact congrArg (fun site : CallSite => some site.instantiatedDescriptor) h.1

namespace Lower

variable {α : Type}

/-- One step on the class file that two workspaces share. -/
theorem together_inFile (step : ClassFile.Step α) (fault : FileFault → Fault) {w v : Workspace} (h : w.file = v.file) :
    Together (inFile step fault) w (inFile step fault) v fun a s b t => a = b ∧ s.file = t.file ∧ s.code = w.code ∧ t.code = v.code := by
  have hsame : Together step w.file step v.file fun a f b g => a = b ∧ f = g := by
    rw [h]
    exact Together.refl step v.file
  refine Together.focus hsame ?_
  rintro a f _ _ ⟨rfl, rfl⟩
  exact ⟨rfl, rfl, rfl, rfl⟩

/-- Steps on the emissions of two workspaces that share the class file. -/
theorem together_emit {x y : Emit Unit} {R : CodeBuffer → CodeBuffer → Prop} {w v : Workspace} (h : w.file = v.file)
    (hxy : Together x w.emission y v.emission fun _ s _ t => s.pool = t.pool ∧ R s.code t.code) :
    Together (emit x) w (emit y) v fun _ s _ t => s.file = t.file ∧ R s.code t.code := by
  refine Together.focus hxy ?_
  rintro _ s _ t ⟨hpool, hcode⟩
  refine ⟨?_, hcode⟩
  simp only [Workspace.withEmission, Workspace.withPool, h, hpool]

/-- Steps on the code, in workspaces with the same class file. -/
theorem together_inCode {x y : CodeBuffer.Step Unit} {R : CodeBuffer → CodeBuffer → Prop} {w v : Workspace} (h : w.file = v.file)
    (hxy : Together x w.code y v.code fun _ c _ d => R c d) :
    Together (emit (Emit.inCode x)) w (emit (Emit.inCode y)) v fun _ s _ t => s.file = t.file ∧ R s.code t.code := by
  refine together_emit h ?_
  refine Together.focus hxy ?_
  intro _ c _ d hcd
  exact ⟨congrArg ClassFile.pool h, hcd⟩

end Lower

/-- A factory for a resolved target type, with parameters that differ in kinds only, is the same but for kinds. -/
theorem Factory.together_create (ctx : Context) (target : JType) {exact exact' : List Param}
    (h : exact.map Param.untag = exact'.map Param.untag) (span : Span) (w : Workspace) :
    Together (create ctx target exact span) w (create ctx (w.classes.canonicalType target) exact' span) w fun m s n t =>
      m.withoutKinds = n.withoutKinds ∧ s.SameOutput t := by
  have htarget : (w.classes.canonicalType target).untag = (w.classes.canonicalType (w.classes.canonicalType target)).untag := by
    rw [ClassTable.canonicalType_canonicalType]
  exact (matched_create ctx htarget h span).together.mono fun _ _ _ _ hst => ⟨hst.1, hst.2.file, hst.2.code⟩

namespace CallSite

/-- The receiver of a resolved target is written alike, but for what is known of its value. -/
theorem together_writeReceiver {ctx : Context} (hctx : ctx.emitReceiver = Expr.emit) (t : ClassTable) {w v : Workspace}
    (hwv : w.SameOutput v) {target : Target}
    (htarget : ∀ e, target = .value e → e.namesType = true → t.canonicalType e.type ≈ e.type) {b b' : Binding}
    (hb : b.withoutKinds = b'.withoutKinds) :
    Together (writeReceiver ctx b target) w (writeReceiver ctx b' (target.resolved t)) v fun _ s _ u =>
      s.file = u.file ∧ if (b.captured? target).isSome then s.code.SameBelow u.code else s.code = u.code := by
  have hcaptured : b'.captured? (target.resolved t) = (b.captured? target).map (Expr.resolved t) := by
    rw [← b'.captured?_withoutKinds, ← hb, b.captured?_withoutKinds, b.captured?_resolved]
  unfold writeReceiver
  rw [hcaptured]
  cases hcase : b.captured? target with
  | none => exact .pure hwv
  | some e =>
    have hemission : v.emission = w.emission := by
      rw [Workspace.emission, Workspace.emission, hwv.1, hwv.2]
    simp only [Option.map_some, hctx, Option.isSome_some, if_true]
    refine Lower.together_emit hwv.1 ?_
    rw [hemission]
    exact e.together_emit_resolved t (htarget e (Binding.target_of_captured? hcase)) w.emission

/-- The constants of a call site do not decide whether it captures a receiver. -/
theorem ensures_capturesReceiver (bootstrap : BootstrapMethod) (ownerIsInterface : Bool) (c : CallSite) (w : Workspace) :
    Ensures (Lower.inFile (addConstants bootstrap ownerIsInterface c)) w (fun site _ => site.capturesReceiver = c.capturesReceiver)
      fun _ _ => True := by
  unfold Lower.inFile addConstants
  rw [ensures_focus]
  refine Ensures.last fun _ _ => Ensures.last fun _ _ => Ensures.last fun _ _ => Ensures.last fun _ _ => Ensures.last fun _ _ =>
    Ensures.last fun _ _ => Ensures.last fun _ _ => ?_
  exact rfl

/-- Call sites of one description are linked alike. -/
theorem together_link {ctx : Context} (hctx : ctx.emitReceiver = Expr.emit) (t : ClassTable) {w v : Workspace} (hwv : w.SameOutput v)
    {target : Target} (htarget : ∀ e, target = .value e → e.namesType = true → t.canonicalType e.type ≈ e.type) {f : FunctionalInterface}
    {b b' : Binding} (hb : b.withoutKinds = b'.withoutKinds)
    (hdescribe : describe w.classes target f b = describe v.classes (target.resolved t) f b') :
    Together (link ctx target f b) w (link ctx (target.resolved t) f b') v fun a s c u => a = c ∧ s.SameOutput u := by
  have howner : b.ownerIsInterface = b'.ownerIsInterface := by
    injection hb
  rw [link_eq, link_eq]
  refine Together.get_bind ?_
  refine Together.bind (together_writeReceiver hctx t hwv htarget hb) ?_
  rintro _ w₁ _ v₁ ⟨hfile, hcode⟩
  rw [← hdescribe, ← howner]
  refine Together.bind ((Lower.together_inFile _ .file hfile).and_ensures
    (ensures_capturesReceiver ctx.settings.bootstrap b.ownerIsInterface (describe w.classes target f b) w₁)) ?_
  rintro site w₂ _ v₂ ⟨⟨rfl, hfile₂, hcode₁, hcode₂⟩, hcaptures⟩
  -- The sites and the files are the same from here on. What is known of a captured value may differ still, and the instruction pops it.
  have hinstruction : Together
      (CodeBuffer.invokeDynamic site.constantIndex (if site.capturesReceiver then 1 else 0) (.object f.type.constantName)) w₂.code
      (CodeBuffer.invokeDynamic site.constantIndex (if site.capturesReceiver then 1 else 0) (.object f.type.constantName)) v₂.code
      fun _ c _ d => c = d := by
    rw [← hcode₁, ← hcode₂] at hcode
    have hcount : site.capturesReceiver = (b.captured? target).isSome := hcaptures
    rw [hcount]
    cases hcaptured : (b.captured? target).isSome with
    | true =>
      rw [hcaptured] at hcode
      exact CodeBuffer.together_invokeDynamic hcode _ _
    | false =>
      rw [hcaptured] at hcode
      have hsame : w₂.code = v₂.code := hcode
      rw [hsame]
      exact (Together.refl _ v₂.code).mono fun _ _ _ _ h => h.2
  refine Together.bind (Lower.together_inCode hfile₂ hinstruction) ?_
  intro _ s _ u hsu
  exact .pure ⟨rfl, hsu⟩

end CallSite

namespace Lower

variable {ctx : Context} {r : Reference} {w : Workspace} {exact exact' : List Param}

/-- What two bindings of a reference, given and resolved, have in common: they differ in kinds only and describe the same call site. -/
def BoundAlike (r : Reference) (t : ClassTable) (f : FunctionalInterface) (b : Binding) (s : Workspace) (b' : Binding) (s' : Workspace) :
    Prop :=
  b.withoutKinds = b'.withoutKinds ∧ s.SameOutput s' ∧
    CallSite.describe s.classes r.target f b = CallSite.describe s'.classes (r.target.resolved t) f b'

/-- Bindings that differ in kinds only are the same without them. -/
theorem binding_withoutKinds (hexact : exact.map Param.untag = exact'.map Param.untag) {method method' : MethodDecl}
    (hmethod : method.withoutKinds = method'.withoutKinds) (owner : JType) (ownerIsInterface isCreation : Bool) :
    (Binding.mk method owner ownerIsInterface exact isCreation).withoutKinds =
      (Binding.mk method' owner ownerIsInterface exact' isCreation).withoutKinds := by
  simp only [Binding.withoutKinds, hmethod, hexact]

/-- A creation is bound alike, given and resolved. -/
theorem together_bindCreation (r : Reference) (hexact : exact.map Param.untag = exact'.map Param.untag) (f : FunctionalInterface) :
    Together (bindCreation ctx r exact) w (bindCreation ctx (r.resolved w.classes) exact') w (BoundAlike r w.classes f) := by
  unfold bindCreation
  cases htarget : r.target with
  | value e =>
    simp only [Reference.resolved, htarget, Target.resolved]
    exact .throw _ _ w w _
  | type type span =>
    simp only [Reference.resolved, htarget, Target.resolved]
    refine Together.bind (Factory.together_create ctx type hexact r.span w) ?_
    rintro factory s factory' t ⟨hfactory, hst⟩
    refine Together.get_bind ?_
    rw [hst.1]
    have hb := binding_withoutKinds hexact hfactory (if t.file.isInterface then JType.ofInterface t.file.name else .ofClass t.file.name)
      t.file.isInterface true
    refine .pure ⟨hb, hst, ?_⟩
    -- The known types differ in the kinds of the factory now, but a call site of a type target does not look at them.
    rw [htarget]
    exact CallSite.describe_congr hb s.classes (.type type span) f

/-- A member is bound alike, given and resolved, when the aliases are hidden. -/
theorem together_bindMember (h : r.HidesAliases w.classes) (hcreation : r.isCreation = false)
    (hexact : exact.map Param.untag = exact'.map Param.untag) (f : FunctionalInterface) :
    Together (bindMember ctx r exact) w (bindMember ctx (r.resolved w.classes) exact') w (BoundAlike r w.classes f) := by
  have hresolve : ((w.scope ctx.policy).resolve r exact).toOption =
      ((w.scope ctx.policy).resolve (r.resolved w.classes) exact').toOption := by
    have halike := congrArg Except.toOption ((w.scope ctx.policy).resolve_alike (r := r.resolved w.classes) rfl hexact)
    rw [toOption_mapError, toOption_mapError] at halike
    rw [← halike]
    exact ((w.scope ctx.policy).resolve_resolved h hcreation exact).symm
  have howner : w.classes.canonicalType (r.resolved w.classes).target.staticType = w.classes.canonicalType r.target.staticType :=
    r.target.canonicalType_staticType_resolved w.classes
  unfold bindMember
  refine Together.get_bind ?_
  refine Together.bind (Together.answer id (congrArg (Option.map id) hresolve) w) ?_
  rintro method _ _ _ ⟨rfl, rfl, rfl⟩
  rw [howner]
  refine .pure ⟨binding_withoutKinds hexact rfl _ _ _, ⟨rfl, rfl⟩, ?_⟩
  rw [CallSite.describe_congr (binding_withoutKinds hexact rfl _ _ _), CallSite.describe_resolved]
  rfl

/-- A reference is bound alike, given and resolved. -/
theorem together_bindReference (h : r.HidesAliases w.classes) (hexact : exact.map Param.untag = exact'.map Param.untag)
    (f : FunctionalInterface) :
    Together (bindReference ctx r exact) w (bindReference ctx (r.resolved w.classes) exact') w (BoundAlike r w.classes f) := by
  unfold bindReference
  change Together _ w (if r.isCreation then _ else _) w _
  cases hcreation : r.isCreation with
  | true => exact together_bindCreation r hexact f
  | false => exact together_bindMember h hcreation hexact f

/-- A reference is linked alike, given and resolved: the call sites are the same, and so are the class files and the code. -/
theorem together_linkReference (hctx : ctx.emitReceiver = Expr.emit) (h : r.HidesAliases w.classes) {f : FunctionalInterface}
    {types : List (Option JType)} (hfindings : r.findings w.classes = .ok (f, types)) :
    Together (linkReference ctx r f types) w
      (linkReference ctx (r.resolved w.classes) f (types.map (Option.map w.classes.canonicalType))) w
      fun l s k t => l.site = k.site ∧ s.SameOutput t := by
  rw [linkReference_eq, linkReference_eq]
  refine Together.get_bind ?_
  refine Together.bind (Together.answer (List.map Param.untag) (h.exactParams hfindings r.span).symm w) ?_
  rintro exact _ exact' _ ⟨hexact, rfl, rfl⟩
  refine Together.bind (together_bindReference h hexact f) ?_
  rintro b s b' t ⟨hb, hst, hdescribe⟩
  refine Together.bind (CallSite.together_link hctx _ hst h.receiver hb hdescribe) ?_
  rintro site s' _ t' ⟨rfl, hst'⟩
  exact .pure ⟨rfl, hst'⟩

/-- A reference whose aliases are hidden and the same reference with every type resolved are lowered to the same effect, in every session:
both fail, both are left to the general way, or both are linked, with the same call site, the same class file and the same code. -/
theorem sameEffect_checkedReference (ctx : Context) (hctx : ctx.emitReceiver = Expr.emit) (w : Workspace) (r : Reference)
    (h : r.HidesAliases w.classes) :
    Together (checkedReference ctx r) w (checkedReference ctx (r.resolved w.classes)) w Outcome.SameEffect := by
  unfold checkedReference reference
  refine Together.get_bind ?_
  refine Together.bind (Together.answer id rfl w) ?_
  rintro _ _ _ _ ⟨-, rfl, rfl⟩
  refine Together.get_bind ?_
  have hresolved := r.findings_resolved w.classes
  cases hfindings : r.findings w.classes with
  | error reason =>
    rw [hfindings] at hresolved
    cases hfindings' : (r.resolved w.classes).findings w.classes with
    | error reason' => exact .pure trivial
    | ok found =>
      rw [hfindings'] at hresolved
      cases hresolved
  | ok found =>
    obtain ⟨f, types⟩ := found
    rw [hfindings] at hresolved
    cases hfindings' : (r.resolved w.classes).findings w.classes with
    | error reason' =>
      rw [hfindings'] at hresolved
      cases hresolved
    | ok found' =>
      rw [hfindings'] at hresolved
      obtain rfl := Option.some.inj hresolved
      refine Together.bind (together_linkReference hctx h hfindings) ?_
      rintro l u k v hlk
      exact .pure hlk

/-! ## Two references in `demo/Main` -/

/-- The class file of `demo/Main`, with `demo/Text` for the class of strings and `demo/Measure` for the interface `demo/Sizer`, which
has the one method `int size(Object)`. -/
def sampleAliases : Workspace where
  classes := ClassTable.empty.registerAll [ClassTable.stringClass, .ofAlias "demo/Text" WellKnown.string,
    (ClassDecl.ofInterface "demo/Sizer").addMethods
      [{ name := "size", params := [.ofType "o" .object], result := .int, access := .accPublic ||| .accAbstract }],
    .ofAlias "demo/Measure" "demo/Sizer"]
  names := ⟨"demo/Main", 0⟩
  file := .create "demo/Main" false {}
  code := {}

/-- In the method `main`. -/
def sampleInMain : Context :=
  ⟨{}, some "main", .language, Expr.emit⟩

/-- `Text::length` for `demo/Measure`, where a string is measured. -/
def sampleAliasedTarget : Reference :=
  ⟨.type (.ofClass "demo/Text") .unknown, "length", some (.ofInterface "demo/Measure"), some [some .string], .unknown⟩

/-- The target and the interface may be named by an alias. -/
theorem sameEffect_checkedReference_sample :
    sampleInMain.emitReceiver = Expr.emit ∧ sampleAliasedTarget.HidesAliases sampleAliases.classes ∧
      (completed (checkedReference sampleInMain sampleAliasedTarget) sampleAliases).map (fun end' => end'.1.instantiated?) =
        some (some "(Ljava/lang/String;)I") ∧
      Together (checkedReference sampleInMain sampleAliasedTarget) sampleAliases
        (checkedReference sampleInMain (sampleAliasedTarget.resolved sampleAliases.classes)) sampleAliases Outcome.SameEffect := by
  have hhides : sampleAliasedTarget.HidesAliases sampleAliases.classes := by
    refine ⟨?_, nofun, ?_⟩
    · rintro types ⟨⟩ type htype
      obtain rfl : type = .string := by simpa using htype
      decide +kernel
    · rintro - type span ⟨⟩ name ⟨⟩
      decide +kernel
  exact ⟨rfl, hhides, by decide +kernel, sameEffect_checkedReference sampleInMain rfl sampleAliases sampleAliasedTarget hhides⟩

/-- `String::length` for `demo/Sizer`, where a `demo/Text` is measured. -/
def sampleAliasedInference : Reference :=
  ⟨.type .string .unknown, "length", some (.ofInterface "demo/Sizer"), some [some (.ofClass "demo/Text")], .unknown⟩

/-- An alias that was inferred for a parameter is written into the call site. There is no such class at run time. -/
theorem not_sameEffect_alias :
    (completed (checkedReference sampleInMain sampleAliasedInference) sampleAliases).map (fun end' => end'.1.instantiated?) =
        some (some "(Ldemo/Text;)I") ∧
      ¬ Together (checkedReference sampleInMain sampleAliasedInference) sampleAliases
        (checkedReference sampleInMain (sampleAliasedInference.resolved sampleAliases.classes)) sampleAliases Outcome.SameEffect := by
  have halias : (completed (checkedReference sampleInMain sampleAliasedInference) sampleAliases).map
      (fun end' => end'.1.instantiated?) = some (some "(Ldemo/Text;)I") := by
    decide +kernel
  have hresolved : (completed (checkedReference sampleInMain (sampleAliasedInference.resolved sampleAliases.classes)) sampleAliases).map
      (fun end' => end'.1.instantiated?) = some (some "(Ljava/lang/String;)I") := by
    decide +kernel
  refine ⟨halias, fun htogether => ?_⟩
  unfold Together at htogether
  generalize completed (checkedReference sampleInMain sampleAliasedInference) sampleAliases = given at halias htogether
  generalize completed (checkedReference sampleInMain (sampleAliasedInference.resolved sampleAliases.classes)) sampleAliases = given'
    at hresolved htogether
  cases htogether with
  | none => cases halias
  | some heffect =>
    have hsame := ((Option.some.inj halias).symm.trans heffect.instantiated?).trans (Option.some.inj hresolved)
    exact absurd hsame (by decide)

end Lower

end Linkage
