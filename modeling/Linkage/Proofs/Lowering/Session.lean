import Linkage.Proofs.Lowering.Linked
import Linkage.Proofs.Lowering.Refusal

/-!
# Two registers of factories

The methods of the enclosing type are kept twice: as declarations among the known types and as methods of the class file. Each has a check of
its own for methods that are there already, and names may be given out anew by a counter that starts over. The two stay in step
(`Session.InStep`): whatever is lowered in whatever order, the declarations are those that were there at first and the factories of the class
file behind them, one for each reference to a constructor that was linked.
-/

namespace Linkage

/-! ## References in a row, with the types that they leave -/

/-- The known types, and the class file of the enclosing type. -/
structure Session where
  classes : ClassTable
  file : ClassFile

namespace Session

/-- Lowers the reference of a request, with the types of the session: its outcome or fault, and the session behind it. -/
def lower (s : Session) (q : Request) : Except Fault Outcome × Session :=
  let (result, t) := { q with classes := s.classes }.lower s.file
  (result, ⟨t.classes, t.file⟩)

/-- Lowers references in order, also behind those that fail: each with what became of it, and the session behind them all. -/
def lowerAll (s : Session) : List Request → List (Request × Except Fault Outcome) × Session
  | [] => ([], s)
  | q :: qs =>
    let (result, t) := s.lower q
    let (results, u) := t.lowerAll qs
    ((q, result) :: results, u)

end Session

/-- The reference to a constructor that was linked, if it is one. -/
def Request.creation? (q : Request) : Except Fault Outcome → Option Linked
  | .ok (.linked l) => if q.reference.isCreation then some l else none
  | _ => none

/-- The references to constructors that were linked, in order. -/
def creations (results : List (Request × Except Fault Outcome)) : List Linked :=
  results.flatMap fun (q, result) => (q.creation? result).toList

/-! ## One reference -/

namespace Lower

variable {ctx : Context} {r : Reference} {w : Workspace}

/-- A reference that is not lowered, for want of settings or of the right names, is refused too. -/
theorem ends_checkedReference (hreceiver : ctx.emitReceiver = Expr.emit) (hw : w.file.pool.Fits) :
    Ensures (checkedReference ctx r) w
      (fun o t => w.file.name = w.names.owner ∧ match o with
        | .fallback _ => t = w
        | .linked l => l.factory = (if r.isCreation then some l.binding.method else none) ∧ w.Gets t l.factory)
      (fun fault t => fault.IsExhaustion ∨ r.Refused w fault t) := by
  unfold checkedReference
  rw [ensures_bind, ensures_get, ensures_bind, ensures_answer]
  refine ⟨fun _ hcheck => ?_, fun _ _ => .inr (refused_of_gains (.inl rfl) (.refl w))⟩
  have hname : w.file.name = w.names.owner := by
    unfold checkContext at hcheck
    split at hcheck
    · cases hcheck
    · split at hcheck
      · assumption
      · cases hcheck
  exact (ends_reference hreceiver hw).mono (fun _ _ h => ⟨hname, h⟩) (fun _ _ h => h)

end Lower

/-! ## The factory of a call site -/

/-- The call site runs the factory, a static method of the class file's type: so says its record, and the class file holds it as recorded. -/
structure Linked.Runs (f : ClassFile) (l : Linked) (factory : MethodDecl) : Prop where
  made : l.factory = some factory
  static : factory.isStatic = true
  declaring : factory.declaring = f.name
  invocation : l.site.invocation = .invokeStatic
  owner : l.site.owner = f.name
  name : l.site.implementationName = factory.name
  descriptor : l.site.implementationDescriptor = factory.descriptor
  described : ∃ bootstrap, f.Describes bootstrap f.isInterface l.site

theorem Linked.Runs.mono {f g : ClassFile} {l : Linked} {factory : MethodDecl} (h : l.Runs f factory) (hfg : f.Grows g) :
    l.Runs g factory := by
  obtain ⟨hname, hinterface, -⟩ := hfg.header
  obtain ⟨bootstrap, hdescribed⟩ := h.described
  refine ⟨h.made, h.static, h.declaring.trans hname.symm, h.invocation, h.owner.trans hname.symm, h.name, h.descriptor, bootstrap, ?_⟩
  rw [hinterface]
  exact hdescribed.mono hfg

/-- The call site of a reference to a constructor runs the factory that it is bound to. -/
theorem Linked.Of.runs {bootstrap : BootstrapMethod} {r : Reference} {interface : FunctionalInterface} {w t : Workspace} {l : Linked}
    (h : l.Of bootstrap r interface w t) (hgrows : w.file.Grows t.file) (hcreation : r.isCreation = true)
    (hmade : l.factory = some l.binding.method) (hstatic : l.binding.method.isStatic = true)
    (hdeclaring : l.binding.method.declaring = w.file.name) : l.Runs t.file l.binding.method := by
  obtain ⟨hname, hinterface, -⟩ := hgrows.header
  obtain ⟨v, hbinding⟩ := h.binding
  have hinvocation : l.binding.invocation = .invokeStatic := by
    rw [Binding.invocation, hbinding.isCreation, hcreation]
    rfl
  have howner : l.binding.owner.constantName = w.file.name := by
    rw [hbinding.owner, Reference.owner, if_pos hcreation]
    split <;> rfl
  have honInterface : l.binding.ownerIsInterface = t.file.isInterface := by
    rw [hbinding.ownerIsInterface, Reference.ownerIsInterface, if_pos hcreation, hinterface]
  refine ⟨hmade, hstatic, hdeclaring.trans hname.symm, ?_, ?_, ?_, ?_, bootstrap, honInterface ▸ h.described⟩
  · rw [h.site]
    exact hinvocation
  · rw [h.site, hname]
    exact howner
  · rw [h.site]
    rfl
  · rw [h.site]
    rfl

namespace Request

variable {f : ClassFile}

/-- How a request ends if no table is full, whatever becomes of its reference. -/
theorem ends_lower (q : Request) (hf : f.Fits) (hroom : ∀ fault, (q.lower f).1 = .error fault → ¬ fault.IsExhaustion) :
    q.creation? (q.lower f).1 = none ∧ (q.lower f).2.classes = q.classes ∧ (q.lower f).2.file.methods = f.methods ∨
      ∃ l factory, q.creation? (q.lower f).1 = some l ∧ l.Runs (q.lower f).2.file factory ∧
        factory.Joins (q.workspace f) (q.lower f).2 := by
  have hends : Ensures (Lower.checkedReference q.context q.reference) (q.workspace f) _ _ := Lower.ends_checkedReference rfl hf.pool
  have hgrows := ClassFile.grows_lower hf q
  have hlinked := fun l => linked_of_lower (q := q) (l := l) hf
  unfold lower runStep at hroom hgrows hlinked ⊢
  cases hrun : Lower.checkedReference q.context q.reference (q.workspace f) with
  | error fault t =>
    rw [hrun] at hroom
    have hrefused := (hends.of_error hrun).resolve_left (hroom fault rfl)
    refine .inl ⟨rfl, hrefused.classes, ?_⟩
    dsimp only
    rw [hrefused.file]
    rfl
  | ok o t =>
    rw [hrun] at hgrows hlinked
    obtain ⟨howner, hend⟩ := hends.of_ok hrun
    cases o with
    | fallback reason =>
      dsimp only at hend
      rw [hend]
      exact .inl ⟨rfl, rfl, rfl⟩
    | linked l =>
      obtain ⟨hfactory, hgets⟩ := hend
      -- there is a factory just when an object is to be created
      cases hcreation : q.reference.isCreation with
      | false =>
        rw [hfactory, hcreation] at hgets
        cases hgets with
        | nothing hkeeps => exact .inl ⟨by simp [creation?, hcreation], hkeeps.classes, hkeeps.file.methods⟩
      | true =>
        rw [hfactory, hcreation] at hgets
        cases hgets with
        | factory hdeclaring haccess hjoins =>
          obtain ⟨interface, -, -, hof⟩ := hlinked l rfl
          rw [hcreation] at hfactory
          refine .inr ⟨l, l.binding.method, by simp [creation?, hcreation], ?_, hjoins⟩
          refine hof.runs hgrows hcreation hfactory ?_ (hdeclaring.trans howner.symm)
          rw [MethodDecl.isStatic, haccess]
          exact Factory.isStatic_access f.isInterface

end Request

/-! ## The registers in step -/

namespace Session

/-- The session `s`, reached from one with the types `classes`, where the enclosing type was declared as `decl`: the factories joined the
methods of the type, they are the methods of the class file, and those that were linked run them. -/
structure InStep (classes : ClassTable) (decl : ClassDecl) (s : Session) (factories : List MethodDecl) (linked : List Linked) : Prop where
  declared : s.classes.get? s.file.name = some { decl with methods := decl.methods ++ factories }
  stored : List.Forall₂ (fun factory m => m.Stores s.file.pool factory) factories s.file.methods.toList
  distinct : (factories.map fun m => (m.name, m.descriptor)).Nodup
  new : ∀ factory ∈ factories, decl.declares factory.name factory.descriptor = false
  linked : List.Forall₂ (fun l factory => l.Runs s.file factory) linked factories
  others : ∀ name, name ≠ s.file.name → s.classes.get? name = classes.get? name

namespace InStep

variable {classes : ClassTable} {decl : ClassDecl} {s t : Session} {factories : List MethodDecl} {linked : List Linked}

/-- Whatever else is added to the class file. -/
theorem mono (h : s.InStep classes decl factories linked) (hfile : s.file.Grows t.file) (hclasses : t.classes = s.classes)
    (hmethods : t.file.methods = s.file.methods) : t.InStep classes decl factories linked where
  declared := by rw [hclasses, hfile.header.1]; exact h.declared
  stored := by rw [hmethods]; exact h.stored.imp fun _ _ hm => hm.mono hfile.pool
  distinct := h.distinct
  new := h.new
  linked := h.linked.imp fun _ _ hl => hl.mono hfile
  others := by rw [hclasses, hfile.header.1]; exact h.others

/-- Methods go on having different names or descriptors when one joins them that has others than each of them. -/
theorem nodup_concat {methods : List MethodDecl} {method : MethodDecl} (h : (methods.map fun m => (m.name, m.descriptor)).Nodup)
    (hnew : (methods.any fun m => m.name = method.name && m.descriptor = method.descriptor) = false) :
    ((methods ++ [method]).map fun m => (m.name, m.descriptor)).Nodup := by
  rw [List.map_append, List.map_singleton]
  refine List.nodup_append.mpr ⟨h, List.pairwise_singleton _ _, ?_⟩
  rintro _ hmem _ hlast rfl
  obtain ⟨other, hmem, hsame⟩ := List.mem_map.mp hmem
  rw [List.mem_singleton] at hlast
  have hdiffers := List.any_eq_false.mp hnew other hmem
  simp only [Bool.and_eq_true, decide_eq_true_eq] at hdiffers
  exact hdiffers (Prod.mk.inj (hsame.trans hlast))

/-- A factory joins both registers, and the call site that was linked for it runs it. -/
theorem join (h : s.InStep classes decl factories linked) (hfile : s.file.Grows t.file) {factory : MethodDecl} {l : Linked}
    (hruns : l.Runs t.file factory) {w v : Workspace} (hw : w.classes = s.classes) (hmethods : w.file.methods = s.file.methods)
    (hv : v.classes = t.classes) (hfile' : v.file = t.file) (hjoins : factory.Joins w v) :
    t.InStep classes decl (factories ++ [factory]) (linked ++ [l]) := by
  have hname := hfile.header.1
  have hdeclaring : factory.declaring = s.file.name := hruns.declaring.trans hname
  obtain ⟨before, hbefore, hnew, hclasses⟩ := hjoins.declared
  obtain ⟨m, hpush, hm⟩ := hjoins.stored
  -- the type as the factory finds it is the one that the registers in step have
  rw [hw, hdeclaring, h.declared, Option.some.injEq] at hbefore
  rw [hw, hv] at hclasses
  rw [hfile', hmethods] at hpush
  rw [hfile'] at hm
  subst hbefore
  have hdecl := ClassTable.name_of_get? h.declared
  dsimp only at hdecl
  simp only [ClassDecl.declares, List.any_append, Bool.or_eq_false_iff, List.append_assoc] at hnew hclasses
  obtain ⟨hnew, hother⟩ := hnew
  refine ⟨?_, ?_, ?_, ?_, ?_, ?_⟩
  · rw [hclasses, ClassTable.get?_register, if_pos (hdecl.trans hname.symm)]
  · rw [hpush, Array.toList_push]
    exact List.rel_append (h.stored.imp fun _ _ hs => hs.mono hfile.pool) (.cons hm .nil)
  · exact nodup_concat h.distinct hother
  · intro other hmem
    rcases List.mem_append.mp hmem with hmem | hmem
    · exact h.new other hmem
    · rw [List.mem_singleton.mp hmem]
      exact hnew
  · exact List.rel_append (h.linked.imp fun _ _ hl => hl.mono hfile) (.cons hruns .nil)
  · intro name hne
    rw [hclasses, ClassTable.get?_register, if_neg (by rw [hdecl, ← hname]; exact hne.symm)]
    exact h.others name (hname ▸ hne)

end InStep

/-- What one reference does to both registers, if no table is full. -/
theorem inStep_lower {classes : ClassTable} {decl : ClassDecl} {s : Session} {factories : List MethodDecl} {linked : List Linked}
    (h : s.InStep classes decl factories linked) (hfits : s.file.Fits) (q : Request)
    (hroom : ∀ fault, (s.lower q).1 = .error fault → ¬ fault.IsExhaustion) :
    ∃ more, (s.lower q).2.InStep classes decl (factories ++ more) (linked ++ (q.creation? (s.lower q).1).toList) := by
  have hgrows : s.file.Grows (s.lower q).2.file := ClassFile.grows_lower hfits { q with classes := s.classes }
  rcases Request.ends_lower { q with classes := s.classes } hfits hroom with
    ⟨hnone, hclasses, hmethods⟩ | ⟨l, factory, hsome, hruns, hjoins⟩
  · change q.creation? (s.lower q).1 = none at hnone
    rw [hnone]
    refine ⟨[], ?_⟩
    simp only [Option.toList_none, List.append_nil]
    exact h.mono hgrows hclasses hmethods
  · change q.creation? (s.lower q).1 = some l at hsome
    rw [hsome]
    exact ⟨[factory], h.join hgrows hruns rfl rfl rfl rfl hjoins⟩

/-- The registers stay in step when references are lowered in order. -/
theorem inStep_lowerAll_of_inStep {classes : ClassTable} {decl : ClassDecl} {s : Session} {factories : List MethodDecl}
    {linked : List Linked} (h : s.InStep classes decl factories linked) (hfits : s.file.Fits) (requests : List Request)
    (hroom : ∀ entry ∈ (s.lowerAll requests).1, ∀ fault, entry.2 = .error fault → ¬ fault.IsExhaustion) :
    (s.lowerAll requests).2.file.name = s.file.name ∧
      ∃ more, (s.lowerAll requests).2.InStep classes decl (factories ++ more) (linked ++ creations (s.lowerAll requests).1) := by
  induction requests generalizing s factories linked with
  | nil => exact ⟨rfl, [], by simpa [lowerAll, creations] using h⟩
  | cons q qs ih =>
    have hlower : s.lowerAll (q :: qs) =
        ((q, (s.lower q).1) :: ((s.lower q).2.lowerAll qs).1, ((s.lower q).2.lowerAll qs).2) := rfl
    rw [hlower] at hroom ⊢
    obtain ⟨first, hfirst⟩ := inStep_lower h hfits q (hroom _ List.mem_cons_self)
    have hgrows : s.file.Grows (s.lower q).2.file := ClassFile.grows_lower hfits { q with classes := s.classes }
    obtain ⟨hname, more, hmore⟩ := ih hfirst (hgrows.fits hfits) fun entry hentry => hroom entry (List.mem_cons_of_mem _ hentry)
    refine ⟨hname.trans hgrows.header.1, first ++ more, ?_⟩
    rw [creations, List.flatMap_cons, ← List.append_assoc, ← List.append_assoc]
    exact hmore

/-- Whatever is lowered into the class file of a registered type, in whatever order and with whatever counters, if no table gets full: the
type has its own methods and behind them the factories. These are the methods of the class file, in the same order and with the same names,
descriptors and flags. They differ from each other and from the type's own methods, and there is one for each reference to a constructor
that was linked, whose call site runs it. All other types stay as they are. -/
theorem inStep_lowerAll {s : Session} {decl : ClassDecl} (hdecl : s.classes.get? s.file.name = some decl)
    (hmethods : s.file.methods = #[]) (hfits : s.file.Fits) (requests : List Request)
    (hroom : ∀ entry ∈ (s.lowerAll requests).1, ∀ fault, entry.2 = .error fault → ¬ fault.IsExhaustion) :
    (s.lowerAll requests).2.file.name = s.file.name ∧
      ∃ factories, (s.lowerAll requests).2.InStep s.classes decl factories (creations (s.lowerAll requests).1) := by
  have hempty : s.InStep s.classes decl [] [] := by
    refine ⟨?_, ?_, List.nodup_nil, nofun, .nil, fun _ _ => rfl⟩
    · rw [List.append_nil]
      exact hdecl
    · rw [hmethods]
      exact .nil
  obtain ⟨hname, factories, h⟩ := inStep_lowerAll_of_inStep hempty hfits requests hroom
  exact ⟨hname, factories, h⟩

/-- The class file of `demo/Main`, and types with a functional interface that makes an object. -/
def sample : Session :=
  ⟨Lower.sampleWorkspace.classes, Lower.sampleWorkspace.file⟩

/-- `String::new` in the method `main`, with a counter that starts over. -/
def sampleRequest : Request :=
  { Request.sample with reference := Lower.sampleCreation }

/-- Whether a request ended in a defect, if it did not end well. -/
def endsInDefect? (entry : Request × Except Fault Outcome) : Option Bool :=
  match entry.2 with
  | .ok _ => none
  | .error fault => some fault.isDefect

/-- The second time the name of the factory is taken: the reference ends in a defect, and the registers hold the factory of the first. -/
theorem inStep_lowerAll_sample :
    sample.classes.get? sample.file.name = some (.ofClass "demo/Main") ∧ sample.file.methods = #[] ∧ sample.file.Fits ∧
      (sample.lowerAll [sampleRequest, sampleRequest]).1.map endsInDefect? = [none, some true] ∧
      (∀ entry ∈ (sample.lowerAll [sampleRequest, sampleRequest]).1, ∀ fault, entry.2 = .error fault → ¬ fault.IsExhaustion) ∧
      ∃ factories, (sample.lowerAll [sampleRequest, sampleRequest]).2.InStep sample.classes (.ofClass "demo/Main") factories
        (creations (sample.lowerAll [sampleRequest, sampleRequest]).1) := by
  have hdecl : sample.classes.get? sample.file.name = some (.ofClass "demo/Main") := by decide +kernel
  have hmethods : sample.file.methods = #[] := rfl
  have hfits : sample.file.Fits := ClassFile.fits_create "demo/Main" false {}
  have hends : (sample.lowerAll [sampleRequest, sampleRequest]).1.map endsInDefect? = [none, some true] := by decide +kernel
  have hroom : ∀ entry ∈ (sample.lowerAll [sampleRequest, sampleRequest]).1,
      ∀ fault, entry.2 = .error fault → ¬ fault.IsExhaustion := by
    intro entry hentry fault hfault
    have hdefect := List.mem_map_of_mem (f := endsInDefect?) hentry
    rw [hends, endsInDefect?, hfault] at hdefect
    cases fault with
    | defect what span => exact id
    | _ => simp [Fault.isDefect] at hdefect
  exact ⟨hdecl, hmethods, hfits, hends, hroom, (inStep_lowerAll hdecl hmethods hfits [sampleRequest, sampleRequest] hroom).2⟩

end Session

end Linkage
