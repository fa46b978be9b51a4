import Linkage.Proofs.Lowering.KnownTypes
import Linkage.Proofs.Lowering.Session
import Linkage.Proofs.Lowering.Settling

/-!
# Call sites that share their entries

Two call sites of a class file have one bootstrap method exactly when they ask the same of it, and one entry of the pool exactly when
they also have the same name and descriptor (`CallSite.bootstrapIndex_eq_iff`, `CallSite.constantIndex_eq_iff`). A reference to a
member that was lowered before finds all it needs: lowered again it has the same outcome, and neither the class file nor the known
types change (`Session.shares_lowerAll`).
-/

namespace Linkage

open NameSupply

/-! ## Two call sites of a class file -/

/-- The kinds of invocation have numbers of their own. -/
theorem Invocation.number_inj {i j : Invocation} (h : i.number = j.number) : i = j := by
  cases i <;> cases j <;> first | rfl | exact absurd h (by decide)

/-- The two kinds of method are apart. -/
theorem MemberKind.ofMethod_inj {b c : Bool} (h : ofMethod b = ofMethod c) : b = c := by
  cases b <;> cases c <;> first | rfl | exact absurd h (by decide)

namespace CallSite

/-- Two call sites ask the same of the same bootstrap method: an object for an interface method of the same type, by the same
implementing method, at the same instantiated type. -/
structure AsksTheSame (bootstrap₁ : BootstrapMethod) (ownerIsInterface₁ : Bool) (site₁ : CallSite) (bootstrap₂ : BootstrapMethod)
    (ownerIsInterface₂ : Bool) (site₂ : CallSite) : Prop where
  bootstrap : bootstrap₁ = bootstrap₂
  erasedDescriptor : site₁.erasedDescriptor = site₂.erasedDescriptor
  invocation : site₁.invocation = site₂.invocation
  owner : site₁.owner = site₂.owner
  implementationName : site₁.implementationName = site₂.implementationName
  implementationDescriptor : site₁.implementationDescriptor = site₂.implementationDescriptor
  ownerIsInterface : ownerIsInterface₁ = ownerIsInterface₂
  instantiatedDescriptor : site₁.instantiatedDescriptor = site₂.instantiatedDescriptor

/-- The class file holds a call site where its record says, and holds what its record says there. -/
structure Recorded (g : ClassFile) (bootstrap : BootstrapMethod) (ownerIsInterface : Bool) (site : CallSite) : Prop where
  stands : site.Stands g bootstrap ownerIsInterface
  describes : g.Describes bootstrap ownerIsInterface site

section Two

variable {g : ClassFile} {bootstrap₁ bootstrap₂ : BootstrapMethod} {ownerIsInterface₁ ownerIsInterface₂ : Bool} {site₁ site₂ : CallSite}

/-- A bootstrap method with its constants is shared by the call sites that ask the same of it, and by no others. -/
theorem bootstrapIndex_eq_iff (h₁ : site₁.Recorded g bootstrap₁ ownerIsInterface₁) (h₂ : site₂.Recorded g bootstrap₂ ownerIsInterface₂) :
    site₁.bootstrapIndex = site₂.bootstrapIndex ↔
      AsksTheSame bootstrap₁ ownerIsInterface₁ site₁ bootstrap₂ ownerIsInterface₂ site₂ := by
  constructor
  · intro hindex
    obtain ⟨b₁, erased₁, implementation₁, instantiated₁, hb₁, harguments₁, hhandle₁, herased₁, himplementation₁, hinstantiated₁⟩ :=
      h₁.describes.arguments
    obtain ⟨b₂, erased₂, implementation₂, instantiated₂, hb₂, harguments₂, hhandle₂, herased₂, himplementation₂, hinstantiated₂⟩ :=
      h₂.describes.arguments
    obtain rfl : b₁ = b₂ := Option.some.inj (hb₁.symm.trans (hindex ▸ hb₂))
    obtain ⟨rfl, rfl, rfl⟩ : erased₁ = erased₂ ∧ implementation₁ = implementation₂ ∧ instantiated₁ = instantiated₂ := by
      simpa using harguments₁.symm.trans harguments₂
    have hbootstrap := Option.some.inj (hhandle₁.symm.trans hhandle₂)
    have himplementation := Option.some.inj (himplementation₁.symm.trans himplementation₂)
    simp only [Handle.mk.injEq] at hbootstrap himplementation
    obtain ⟨-, -, hb⟩ := hbootstrap
    obtain ⟨hnumber, hkind, howner, hname, hdescriptor⟩ := himplementation
    refine ⟨?_, Option.some.inj (herased₁.symm.trans herased₂), Invocation.number_inj hnumber, howner, hname, hdescriptor,
      MemberKind.ofMethod_inj hkind, Option.some.inj (hinstantiated₁.symm.trans hinstantiated₂)⟩
    cases bootstrap₁
    cases bootstrap₂
    simpa using hb
  · intro h
    have hsame : addBootstrapMethod bootstrap₁ ownerIsInterface₁ site₁ = addBootstrapMethod bootstrap₂ ownerIsInterface₂ site₂ := by
      unfold addBootstrapMethod
      rw [h.bootstrap, h.erasedDescriptor, h.invocation, h.owner, h.implementationName, h.implementationDescriptor, h.ownerIsInterface,
        h.instantiatedDescriptor]
    have hrun := h₁.stands.bootstrap
    rw [hsame, h₂.stands.bootstrap] at hrun
    exact (EStateM.Result.ok.inj hrun).1.symm

/-- An entry of the pool is shared by the call sites that share their bootstrap method, name and descriptor, and by no others. -/
theorem constantIndex_eq_iff (h₁ : site₁.Recorded g bootstrap₁ ownerIsInterface₁) (h₂ : site₂.Recorded g bootstrap₂ ownerIsInterface₂) :
    site₁.constantIndex = site₂.constantIndex ↔
      AsksTheSame bootstrap₁ ownerIsInterface₁ site₁ bootstrap₂ ownerIsInterface₂ site₂ ∧
        site₁.name = site₂.name ∧ site₁.descriptor = site₂.descriptor := by
  rw [← bootstrapIndex_eq_iff h₁ h₂]
  constructor
  · intro hindex
    have hdynamic := h₁.describes.dynamic
    rw [hindex, h₂.describes.dynamic] at hdynamic
    simp only [Option.some.injEq, Prod.mk.injEq] at hdynamic
    exact ⟨hdynamic.1.symm, hdynamic.2.1.symm, hdynamic.2.2.symm⟩
  · rintro ⟨hbootstrap, hname, hdescriptor⟩
    have hrun := h₁.stands.constant
    rw [hbootstrap, hname, hdescriptor, h₂.stands.constant] at hrun
    exact (EStateM.Result.ok.inj hrun).1.symm

end Two

end CallSite

/-! ## A reference that is lowered again -/

/-- A reference that was lowered from the workspace `w`, which left `t`, is to be lowered again: with the same settings, in code of
the same type that may use the same methods, when the class file has been extended and the known types have gained factories at most. -/
structure Context.Repeats (ctx : Context) (w t : Workspace) (ctx' : Context) (u : Workspace) : Prop where
  settings : ctx'.settings = ctx.settings
  receiver : ctx'.emitReceiver = Expr.emit
  owner : u.names.owner = w.names.owner
  visible : ∀ given, ctx'.policy.select u.classes w.names.owner given = ctx.policy.select w.classes w.names.owner given
  classes : w.classes.Agrees u.classes
  file : t.file.Extends u.file

/-- A check that succeeds is passed over. -/
theorem ensures_answer_bind {ε σ α β : Type} {result : Except ε α} {a : α} (h : result = .ok a) {k : α → EStateM ε σ β} {s : σ}
    {ok : β → σ → Prop} {err : ε → σ → Prop} : Ensures (answer result >>= k) s ok err ↔ Ensures (k a) s ok err := by
  rw [h]
  rfl

namespace Lower

variable {ctx : Context} {r : Reference} {w : Workspace}

/-- What was linked stands in every class file that extends the one it was linked in. -/
theorem stands_linkReference (hreceiver : ctx.emitReceiver = Expr.emit) (f : FunctionalInterface) (inferred : List (Option JType)) :
    Ensures (linkReference ctx r f inferred) w
      (fun l t => ∀ g, t.file.Extends g → l.site.Stands g ctx.settings.bootstrap l.binding.ownerIsInterface) fun _ _ => True := by
  rw [linkReference_eq]
  refine Ensures.last fun _ _ => Ensures.last fun _ _ => Ensures.last fun b t => ?_
  rw [ensures_bind]
  exact (CallSite.link_again hreceiver).mono (fun _ _ h => h.1) (fun _ _ h => h)

/-- What a linked reference refers to stands in every later class file. -/
theorem stands_checkedReference (hreceiver : ctx.emitReceiver = Expr.emit) :
    Ensures (checkedReference ctx r) w (fun o t => ∀ l, o = .linked l → ∀ g, t.file.Extends g →
      l.site.Stands g ctx.settings.bootstrap l.binding.ownerIsInterface) fun _ _ => True := by
  unfold checkedReference reference
  refine Ensures.last fun _ _ => Ensures.last fun _ _ => ?_
  rw [ensures_bind, ensures_get]
  split
  · rw [ensures_pure]
    nofun
  · rw [ensures_bind]
    refine (stands_linkReference hreceiver _ _).mono ?_ (fun _ _ h => h)
    rintro l t h _ ⟨⟩
    exact h

/-- A reference to a member, lowered again, has the same outcome. -/
theorem linkReference_again (hreceiver : ctx.emitReceiver = Expr.emit) (hcreation : r.isCreation = false)
    (hmember : ¬ IsFactoryName r.member) (f : FunctionalInterface) (inferred : List (Option JType)) :
    Ensures (linkReference ctx r f inferred) w
      (fun l t => ∀ ctx' u, ctx.Repeats w t ctx' u → Ensures (linkReference ctx' r f inferred) u
        (fun l' v => l' = l ∧ v.file = u.file ∧ v.classes = u.classes) fun _ _ => False)
      fun _ _ => True := by
  have hbind : ∀ (ctx : Context) (exact : List Param), bindReference ctx r exact = bindMember ctx r exact := fun _ _ => by
    rw [bindReference, hcreation, if_neg (by decide)]
  rw [linkReference_eq, ensures_bind, ensures_get, ensures_bind, ensures_answer]
  refine ⟨fun exact hexact => ?_, fun _ _ => trivial⟩
  rw [hbind, ensures_bind, bindMember, ensures_bind, ensures_get, ensures_bind, ensures_answer]
  refine ⟨fun method hmethod => ?_, fun _ _ => trivial⟩
  rw [ensures_pure, ensures_bind]
  refine (CallSite.link_again hreceiver).mono ?_ (fun _ _ h => h)
  rintro site t ⟨-, hagain⟩
  rw [ensures_pure]
  intro ctx' u h
  have hexact' : f.exactParams u.classes inferred r.span = .ok exact := (h.classes.exactParams f inferred r.span).symm.trans hexact
  have hmethod' : (u.scope ctx'.policy).resolve r exact = .ok method := by
    rw [Workspace.scope, h.owner, h.classes.resolve_of_visible h.visible hmember]
    exact hmethod
  rw [linkReference_eq, ensures_bind, ensures_get, ensures_answer_bind hexact', hbind, ensures_bind, bindMember, ensures_bind, ensures_get,
    ensures_answer_bind hmethod', ensures_pure, ensures_bind, ← h.classes.sameHierarchy.canonicalType, ← h.classes.sameHierarchy.isInterface]
  refine (hagain ctx' u h.settings h.receiver h.classes.sameHierarchy.canonicalType.symm h.file).mono ?_ (fun _ _ h => h)
  rintro _ v ⟨rfl, hfile, hclasses⟩
  rw [ensures_pure]
  exact ⟨rfl, hfile, hclasses⟩

/-- A reference that was lowered is lowered again to the same outcome, and adds nothing then. -/
theorem reference_again (hreceiver : ctx.emitReceiver = Expr.emit) (hcreation : r.isCreation = false)
    (hmember : ¬ IsFactoryName r.member) :
    Ensures (reference ctx r) w
      (fun o t => ∀ ctx' u, ctx.Repeats w t ctx' u → Ensures (reference ctx' r) u
        (fun o' v => o' = o ∧ v.file = u.file ∧ v.classes = u.classes) fun _ _ => False)
      fun _ _ => True := by
  unfold reference
  rw [ensures_bind, ensures_get]
  cases hfindings : r.findings w.classes with
  | error reason =>
    intro ctx' u h
    rw [ensures_bind, ensures_get, ← h.classes.findings, hfindings]
    exact ⟨rfl, rfl, rfl⟩
  | ok found =>
    obtain ⟨f, inferred⟩ := found
    dsimp only
    rw [ensures_bind]
    refine (linkReference_again hreceiver hcreation hmember f inferred).mono ?_ (fun _ _ h => h)
    intro l t hagain ctx' u h
    rw [ensures_bind, ensures_get, ← h.classes.findings, hfindings]
    dsimp only
    rw [ensures_bind]
    refine (hagain ctx' u h).mono ?_ (fun _ _ h => h)
    rintro _ v ⟨rfl, hv⟩
    exact ⟨rfl, hv⟩

end Lower

/-! ## Runs -/

namespace Request

/-- The call site that answers a request is recorded in every class file that grows out of the one behind it. -/
theorem recorded_of_lower {q : Request} {f : ClassFile} (hf : f.Fits) {l : Linked} (hl : (q.lower f).1 = .ok (.linked l))
    {g : ClassFile} (hg : (q.lower f).2.file.Grows g) : l.site.Recorded g q.settings.bootstrap l.binding.ownerIsInterface := by
  obtain ⟨interface, inferred, -, hof⟩ := linked_of_lower hf hl
  refine ⟨?_, hof.described.mono hg⟩
  have hstands : Ensures (Lower.checkedReference q.context q.reference) (q.workspace f) _ _ := Lower.stands_checkedReference rfl
  unfold lower runStep at hl hg
  cases hrun : Lower.checkedReference q.context q.reference (q.workspace f) with
  | ok outcome t =>
    rw [hrun] at hl hg
    exact hstands.of_ok hrun l (Except.ok.inj hl) g hg.toExtends
  | error fault t =>
    rw [hrun] at hl
    cases hl

end Request

namespace Session

/-- What a request leaves of a session. -/
theorem after_lower {s : Session} (hfits : s.file.Fits) (q : Request) :
    s.file.Grows (s.lower q).2.file ∧ s.classes.Agrees (s.lower q).2.classes := by
  refine ⟨ClassFile.grows_lower hfits { q with classes := s.classes }, ?_⟩
  exact Ensures.snd_runStep (Ensures.mono (Lower.keepsTypes_checkedReference q.context q.reference ⟨s.classes, q.names, s.file, q.code⟩)
    (fun _ _ h => h.1) (fun _ _ h => h))

/-- What requests in a row leave of a session. -/
theorem after_lowerAll {s : Session} (hfits : s.file.Fits) (requests : List Request) :
    s.file.Grows (s.lowerAll requests).2.file ∧ s.classes.Agrees (s.lowerAll requests).2.classes := by
  induction requests generalizing s with
  | nil => exact ⟨.refl, .refl _⟩
  | cons q qs ih =>
    obtain ⟨hfile, hclasses⟩ := after_lower hfits q
    obtain ⟨hfile', hclasses'⟩ := ih (hfile.fits hfits)
    exact ⟨hfile.trans hfile', hclasses.trans hclasses'⟩

/-- Requests are lowered one after the other. -/
theorem lowerAll_cons (s : Session) (q : Request) (qs : List Request) :
    (s.lowerAll (q :: qs)).1 = (q, (s.lower q).1) :: ((s.lower q).2.lowerAll qs).1 :=
  rfl

/-- A run ends as the rest of it does from where its first part ends. -/
theorem lowerAll_append (s : Session) (before after : List Request) :
    (s.lowerAll (before ++ after)).2 = ((s.lowerAll before).2.lowerAll after).2 := by
  induction before generalizing s with
  | nil => rfl
  | cons q qs ih => exact ih (s.lower q).2

/-- An entry of a run is what becomes of a request behind the requests before it. -/
theorem exists_of_mem_lowerAll {s : Session} {requests : List Request} {q : Request} {result : Except Fault Outcome}
    (h : (q, result) ∈ (s.lowerAll requests).1) :
    ∃ before after, requests = before ++ q :: after ∧ ((s.lowerAll before).2.lower q).1 = result := by
  induction requests generalizing s with
  | nil => cases h
  | cons first rest ih =>
    rw [lowerAll_cons, List.mem_cons] at h
    rcases h with h | h
    · cases h
      exact ⟨[], rest, rfl, rfl⟩
    · obtain ⟨before, after, rfl, hresult⟩ := ih h
      exact ⟨first :: before, after, rfl, hresult⟩

/-- Every call site that was linked in a run is recorded in the class file behind it. -/
theorem recorded_of_mem {s : Session} (hfits : s.file.Fits) {requests : List Request} {q : Request} {l : Linked}
    (h : (q, .ok (.linked l)) ∈ (s.lowerAll requests).1) :
    l.site.Recorded (s.lowerAll requests).2.file q.settings.bootstrap l.binding.ownerIsInterface := by
  obtain ⟨before, after, rfl, hl⟩ := exists_of_mem_lowerAll h
  have hbefore := (after_lowerAll hfits before).1.fits hfits
  have hlower := (after_lower hbefore q).1.fits hbefore
  rw [lowerAll_append]
  exact Request.recorded_of_lower (q := { q with classes := (s.lowerAll before).2.classes }) hbefore hl (after_lowerAll hlower after).1

/-- What lowering a request comes down to. -/
theorem lower_of_run {s : Session} {q : Request} {outcome : Outcome} {u : Workspace}
    (h : Lower.checkedReference q.context q.reference ⟨s.classes, q.names, s.file, q.code⟩ = .ok outcome u) :
    s.lower q = (.ok outcome, ⟨u.classes, u.file⟩) := by
  have hrun : { q with classes := s.classes }.lower s.file = (.ok outcome, u) := by
    change runStep (Lower.checkedReference q.context q.reference) ⟨s.classes, q.names, s.file, q.code⟩ = _
    rw [runStep, h]
  rw [lower, hrun]

/-- A request that succeeds has a run behind it. -/
theorem exists_run_of_lower {s : Session} {q : Request} {outcome : Outcome} (h : (s.lower q).1 = .ok outcome) :
    ∃ u, Lower.checkedReference q.context q.reference ⟨s.classes, q.names, s.file, q.code⟩ = .ok outcome u := by
  have hlower : (s.lower q).1 = (runStep (Lower.checkedReference q.context q.reference) ⟨s.classes, q.names, s.file, q.code⟩).1 := rfl
  rw [hlower, runStep] at h
  split at h
  · rename_i o u hrun
    cases h
    exact ⟨u, hrun⟩
  · cases h

/-- A reference to a member, lowered again in a session that later requests may have left, has the same outcome and changes nothing. -/
theorem lower_again {s t : Session} {q again : Request} {outcome : Outcome} (hq : (s.lower q).1 = .ok outcome)
    (hcreation : q.reference.isCreation = false) (hmember : ¬ IsFactoryName q.reference.member)
    (hname : t.file.name = s.file.name) (hfile : (s.lower q).2.file.Extends t.file) (hclasses : s.classes.Agrees t.classes)
    (hreference : again.reference = q.reference) (hsettings : again.settings = q.settings)
    (howner : again.names.owner = q.names.owner)
    (hvisible : ∀ given, again.policy.select t.classes q.names.owner given = q.policy.select s.classes q.names.owner given) :
    t.lower again = (.ok outcome, t) := by
  obtain ⟨u, hrun⟩ := exists_run_of_lower hq
  rw [lower_of_run hrun] at hfile
  have hagain : Ensures (Lower.checkedReference q.context q.reference) ⟨s.classes, q.names, s.file, q.code⟩
      (fun o u => u.file.Extends t.file →
        Ensures (Lower.checkedReference again.context again.reference) ⟨t.classes, again.names, t.file, again.code⟩
          (fun o' v => o' = o ∧ v.file = t.file ∧ v.classes = t.classes) fun _ _ => False)
      fun _ _ => True := by
    unfold Lower.checkedReference
    rw [ensures_bind, ensures_get, ensures_bind, ensures_answer]
    refine ⟨fun _ hcheck => ?_, fun _ _ => trivial⟩
    refine (Lower.reference_again rfl hcreation hmember).mono ?_ (fun _ _ _ => trivial)
    intro o u hagain hu
    have hcheck' : Lower.checkContext again.context ⟨t.classes, again.names, t.file, again.code⟩ = .ok () := by
      rw [← hcheck]
      unfold Lower.checkContext Request.context
      dsimp only
      rw [hsettings, howner, hname]
    rw [ensures_bind, ensures_get, ensures_answer_bind hcheck', hreference]
    exact hagain again.context _ ⟨hsettings, rfl, howner, hvisible, hclasses, hu⟩
  have hrepeat := hagain.of_ok hrun hfile
  cases hrun' : Lower.checkedReference again.context again.reference ⟨t.classes, again.names, t.file, again.code⟩ with
  | error fault v => exact (hrepeat.of_error hrun').elim
  | ok o v =>
    obtain ⟨rfl, hfile', hclasses'⟩ := hrepeat.of_ok hrun'
    rw [lower_of_run hrun', hfile', hclasses']

/-- Whatever is lowered into a class file, in whatever order and whatever becomes of it. Two call sites that were linked on the way
have the same index of a bootstrap method exactly when they ask the same of the same one, and the same index in the pool exactly when
they also have the same name and descriptor. A reference to a member that was lowered on the way, and does not name a factory, is
lowered again with the same outcome, by the same settings in code of the same type that may use the same methods; the class file and
the known types stay as they are. -/
theorem shares_lowerAll (s : Session) (hfits : s.file.Fits) (requests : List Request) :
    (∀ q₁ l₁ q₂ l₂, (q₁, .ok (.linked l₁)) ∈ (s.lowerAll requests).1 → (q₂, .ok (.linked l₂)) ∈ (s.lowerAll requests).1 →
      (l₁.site.bootstrapIndex = l₂.site.bootstrapIndex ↔
        CallSite.AsksTheSame q₁.settings.bootstrap l₁.binding.ownerIsInterface l₁.site
          q₂.settings.bootstrap l₂.binding.ownerIsInterface l₂.site) ∧
      (l₁.site.constantIndex = l₂.site.constantIndex ↔
        CallSite.AsksTheSame q₁.settings.bootstrap l₁.binding.ownerIsInterface l₁.site
          q₂.settings.bootstrap l₂.binding.ownerIsInterface l₂.site ∧
        l₁.site.name = l₂.site.name ∧ l₁.site.descriptor = l₂.site.descriptor)) ∧
    ∀ before q after outcome, requests = before ++ q :: after → ((s.lowerAll before).2.lower q).1 = .ok outcome →
      q.reference.isCreation = false → ¬ IsFactoryName q.reference.member →
      ∀ again : Request, again.reference = q.reference → again.settings = q.settings → again.names.owner = q.names.owner →
      (∀ given, again.policy.select (s.lowerAll requests).2.classes q.names.owner given =
        q.policy.select (s.lowerAll before).2.classes q.names.owner given) →
      (s.lowerAll requests).2.lower again = (.ok outcome, (s.lowerAll requests).2) := by
  constructor
  · intro q₁ l₁ q₂ l₂ h₁ h₂
    have hrecorded₁ := recorded_of_mem hfits h₁
    have hrecorded₂ := recorded_of_mem hfits h₂
    exact ⟨CallSite.bootstrapIndex_eq_iff hrecorded₁ hrecorded₂, CallSite.constantIndex_eq_iff hrecorded₁ hrecorded₂⟩
  · rintro before q after outcome rfl hq hcreation hmember again hreference hsettings howner hvisible
    have hbefore := (after_lowerAll hfits before).1.fits hfits
    obtain ⟨hfile, hclasses⟩ := after_lower hbefore q
    obtain ⟨hfile', hclasses'⟩ := after_lowerAll (hfile.fits hbefore) after
    rw [lowerAll_append] at hvisible ⊢
    exact lower_again hq hcreation hmember (hfile.trans hfile').header.1 hfile'.toExtends (hclasses.trans hclasses') hreference hsettings
      howner hvisible

/-- The class file of `demo/Main`, and a second interface that the length of a text can implement. -/
def sampleSharing : Session :=
  ⟨Request.sample.classes.register ((ClassDecl.ofInterface "demo/Counter").addMethods
    [{ name := "count", params := [], result := .int, access := .accPublic ||| .accAbstract }]), .create "demo/Main" false {}⟩

/-- `"abc"::length` for `demo/Sizer`, for `demo/Counter`, and for `demo/Sizer` again. -/
def sampleRequests : List Request :=
  [.sample, { Request.sample with reference := { Request.sample.reference with interface := some (.ofInterface "demo/Counter") } }, .sample]

/-- The indices of a call site, if a request was answered by one. -/
def indices? (entry : Request × Except Fault Outcome) : Option (UInt16 × UInt16) :=
  match entry.2 with
  | .ok (.linked l) => some (l.site.bootstrapIndex, l.site.constantIndex)
  | _ => none

theorem shares_lowerAll_sample :
    sampleSharing.file.Fits ∧
      (sampleSharing.lowerAll sampleRequests).1.map indices? = [some (0, 21), some (0, 25), some (0, 21)] ∧
      ∃ outcome, (sampleSharing.lower .sample).1 = .ok outcome ∧
        (sampleSharing.lowerAll sampleRequests).2.lower .sample = (.ok outcome, (sampleSharing.lowerAll sampleRequests).2) := by
  have hfits : sampleSharing.file.Fits := ClassFile.fits_create "demo/Main" false {}
  have hindices : (sampleSharing.lowerAll sampleRequests).1.map indices? = [some (0, 21), some (0, 25), some (0, 21)] := by
    decide +kernel
  have hfirst : indices? (.sample, (sampleSharing.lower .sample).1) = some (0, 21) := by
    have hhead := hindices
    rw [sampleRequests, lowerAll_cons, List.map_cons] at hhead
    exact (List.cons.inj hhead).1
  refine ⟨hfits, hindices, ?_⟩
  cases houtcome : (sampleSharing.lower .sample).1 with
  | error fault =>
    rw [houtcome] at hfirst
    cases hfirst
  | ok outcome =>
    have hshares := (shares_lowerAll sampleSharing hfits sampleRequests).2
    refine ⟨outcome, rfl, hshares [] .sample sampleRequests.tail outcome rfl houtcome rfl (by decide) .sample rfl rfl rfl ?_⟩
    exact (after_lowerAll hfits sampleRequests).2.sameHierarchy.select_language _

end Session

end Linkage
