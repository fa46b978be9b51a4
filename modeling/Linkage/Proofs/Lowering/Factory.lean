import Linkage.Proofs.Emission.Factory
import Linkage.Proofs.Lowering.Run

/-!
# What factories do

The factory that `Factory.create` adds to the class file loads each of its parameters once, in order, and returns the new object or
array: its body `Creates` what the target stands for.
-/

namespace Linkage

open Emit Emission

namespace Factory

/-- The body of a method, run on the exact parameters with the constants of a pool, loads each of them once, in order, and returns a value
of the type, which it made. The limits of the body are those of the run. -/
def Creates (scope : Scope) (type : JType) (exact : List Param) (span : Span) (body : MethodBody) (p : Pool) : Prop :=
  ∃ is returned f, Instruction.decodeAll body.code = some is ∧
    Frame.execBody? scope.classes (localsFrom 0 (exact.map (·.type))) p is {} = some (returned, f) ∧ f.stack = [] ∧
    f.loads = List.range exact.length ∧ returned ≈ type ∧ Made scope exact span f returned type ∧
    body.maxStack.toNat = f.peak ∧ body.maxLocals.toNat = (localsFrom 0 (exact.map (·.type))).length

/-- What a factory returns is a reference. -/
theorem Made.isReference {scope : Scope} {exact : List Param} {span : Span} {f : Frame} {returned type : JType}
    (h : Made scope exact span f returned type) : type.isReference = true := by
  cases type with
  | named k n => rfl
  | array c => rfl
  | prim p => cases h
  | void => cases h

/-- A reference is left on return by one instruction. -/
theorem decodes_returnOf {type : JType} (h : type.isReference = true) :
    Instruction.Decodes [Opcode.returnOf type] [.leave (some .reference)] := by
  have hopcode : Opcode.returnOf type = Opcode.areturn := by
    cases type with
    | named k n => rfl
    | array c => rfl
    | prim p => cases h
    | void => cases h
  rw [hopcode]
  exact Instruction.decodes_single rfl (by decide)

variable {handles : UInt8 → MemberKind → Prop} {bootstraps : Nat} {scope : Scope} {type : JType} {exact : List Param} {span : Span}

/-- The body of a factory creates what is asked for, whatever else joins the pool later. -/
theorem creates_body {p : Pool} {tracing : Bool} (hp : p.Fits) (hclasses : scope.classes.Describable) (htype : type.Describable)
    (hcanonical : ∀ kind name, type = .named kind name → scope.classes.canonicalName name = name) :
    Adds handles bootstraps (body scope type exact span) ⟨p, .create 0 tracing⟩ fun _ t =>
      ∀ q, t.pool.Extends q → Creates scope type exact span (.ofBuffer t.code) q := by
  unfold body
  refine Adds.bind (adds_inCode (CodeBuffer.ensures_ensureLocals _ _)) ?_
  intro _ s₁ h₁ hview
  obtain ⟨hpool₁, hslots, hcode₁⟩ := hview
  have htracks : s₁.code.Tracks {} := by
    rw [hcode₁]
    exact .create _ tracing
  refine Adds.bind (carries_make (h₁.fits hp) htracks hclasses htype hcanonical) ?_
  intro _ s₂ h₂ hview
  obtain ⟨returned, sources, f, hstack, hreturned, hloads, hmade, hc⟩ := hview
  refine (adds_inCode (CodeBuffer.ensures_emitReturn type s₂.code)).mono ?_
  rintro _ t - ⟨hpool, hpopped⟩ q hq
  rw [hpool] at hq
  have href := hmade.isReference
  have hreturnedRef : returned.isReference = true := by
    rw [← JType.isReference_untag, JType.equiv_def.mp hreturned, JType.isReference_untag, href]
  have hreturn : s₂.code.Writes (s₂.code.emitOp (Opcode.returnOf type)) [.leave (some .reference)] :=
    CodeBuffer.writes_emitOp s₂.code (decodes_returnOf href)
  -- the body is the code that makes the object, and one instruction more
  obtain ⟨is, his, hrun⟩ := hc.code
  obtain ⟨code, hcode, hdecodes⟩ := his.trans hreturn.appends
  refine ⟨is ++ [.leave (some .reference)], returned, { f with stack := [] }, ?_, ?_, rfl, hloads, hreturned, ?_, ?_, ?_⟩
  · have hbytes : (MethodBody.ofBuffer t.code).code = code := by
      rw [MethodBody.ofBuffer, hpopped.eq]
      dsimp only
      rw [hcode, hcode₁]
      rfl
    rw [hbytes]
    exact hdecodes.decodeAll
  · exact Frame.execBody?_concat (hrun q hq) hstack hreturnedRef
  · cases type with
    | named k n => exact hmade
    | array c => exact hmade
    | prim p => cases hmade
    | void => cases hmade
  · change t.code.maxDepth.toNat = f.peak
    rw [hpopped.eq]
    exact hc.tracks.peak
  · change t.code.maxLocals.toNat = _
    rw [hpopped.eq]
    change s₂.code.maxLocals.toNat = _
    rw [hc.maxLocals, hcode₁, length_localsFrom, toNat_max16, Nat.toUInt16_eq, UInt16.toNat_ofNat', Nat.mod_eq_of_lt hslots]
    exact Nat.zero_max _

/-- A factory that is made is in the class file under its name and descriptor, and its body creates what the target stands for, then and
behind everything that joins the pool later. -/
theorem creates_create {ctx : Context} {target : JType} {w t : Workspace} {factory : MethodDecl} (hw : w.file.Fits)
    (hclasses : w.classes.Describable) (htarget : target.Describable) (h : create ctx target exact span w = .ok factory t) :
    ∃ m body, t.file.methods = w.file.methods.push m ∧ t.file.pool.utf8? m.nameIndex = some factory.name ∧
      t.file.pool.utf8? m.descriptorIndex = some (methodDescriptor (exact.map (·.type)) (w.classes.canonicalType target)) ∧
      t.file.body? m = some body ∧
      ∀ p, t.file.pool.Extends p → Creates (w.scope ctx.policy) (w.classes.canonicalType target) exact span body p := by
  obtain ⟨-, -, hparams, hresult, e, m, hbody, hpool, hmethods, hname, hdescriptor, hcode⟩ := (adds_create hw).of_ok h
  have hruns : Adds Handle.Permitted w.file.bootstraps.size
      (body (w.scope ctx.policy) (w.classes.canonicalType target) exact span) ⟨w.file.pool, .create 0 ctx.settings.tracing⟩ _ :=
    creates_body hw.pool hclasses (hclasses.canonicalType htarget) fun _ _ => ClassTable.canonicalName_of_canonicalType
  obtain ⟨-, hcreates⟩ := hruns.of_ok hbody
  rw [MethodDecl.descriptor, MethodDecl.paramTypes, hparams, hresult] at hdescriptor
  exact ⟨m, .ofBuffer e.code, hmethods, hname, hdescriptor, hcode, fun p hp => hcreates p (hpool.trans hp)⟩

/-- The types of a program in which `demo/Main` makes objects of `demo/Box`, each from a `long` and a wrapped `int`. -/
def sampleTypes : ClassTable :=
  (ClassTable.platform.register (.ofClass "demo/Main")).register ((ClassDecl.ofClass "demo/Box").addMethods
    [.constructor [.ofType "size" (.prim .long), .ofType "label" (.ofClass Primitive.int.wrapper)]])

/-- The types of the sample can be described. -/
theorem describable_sampleTypes : sampleTypes.Describable :=
  (ClassTable.describable_platform.register (by decide +kernel)).register (by decide +kernel)

/-- Makes the factory for `demo/Box` with two `int`s in an empty class file. -/
def sampleRun : EStateM.Result Fault Workspace MethodDecl :=
  create ⟨{}, some "main", .language, Expr.emit⟩ (.ofClass "demo/Box") [.ofType "m" .int, .ofType "n" .int] .unknown
    ⟨sampleTypes, ⟨"demo/Main", 0⟩, .create "demo/Main" false {}, {}⟩

/-- Both arguments are converted on the way: the first is widened, the second boxed. -/
theorem creates_create_sample : (ClassFile.create "demo/Main" false {}).Fits ∧ sampleTypes.Describable ∧
    (JType.ofClass "demo/Box").Describable ∧ ∃ factory t m body, sampleRun = .ok factory t ∧ t.file.body? m = some body ∧
      Creates ⟨sampleTypes, .language, "demo/Main"⟩ (sampleTypes.canonicalType (.ofClass "demo/Box"))
        [.ofType "m" .int, .ofType "n" .int] .unknown body t.file.pool := by
  have hfits := ClassFile.fits_create "demo/Main" false {}
  have htarget : (JType.ofClass "demo/Box").Describable := by decide +kernel
  have hmade : (sampleRun matches .ok _ _) = true := by decide +kernel
  cases hrun : sampleRun with
  | error fault t =>
    rw [hrun] at hmade
    cases hmade
  | ok factory t =>
    obtain ⟨m, body, -, -, -, hbody, hcreates⟩ := creates_create hfits describable_sampleTypes htarget hrun
    exact ⟨hfits, describable_sampleTypes, htarget, factory, t, m, body, rfl, hbody, hcreates _ (.refl _)⟩

end Factory

end Linkage
