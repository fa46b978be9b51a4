import Linkage.Proofs.ClassFile.Layout
import Linkage.Proofs.Lowering.Run
import Linkage.Proofs.Pool.Additions
import Mathlib.Data.List.Find

/-!
# Methods behind everything that is done later

While code is written, constants and methods are added to a class file and references are lowered into it, in whatever order and also behind
faults (`ClassFile.after`). The class file only continues: constants and methods stay where they are, and each method goes on being recorded by
the constants that it was added with. So a method is found by its name and descriptor for good, with the body that it was added with.
-/

namespace Linkage

namespace ClassFile

/-- What is done to a class file while code is written. -/
inductive Change where
  | constant (addition : Pool.Addition)
  | method (access : Access) (name descriptor : String) (code : CodeBuffer)
  | reference (request : Request)

/-- The class file behind a change, also when it fails. -/
def change (f : ClassFile) : Change → ClassFile
  | .constant addition => (runStep (inPool addition.step) f).2
  | .method access name descriptor code => (runStep (addMethod access name descriptor code) f).2
  | .reference request => (request.lower f).2.file

/-- The class file behind changes in order, those that fail among them. -/
def after (f : ClassFile) (changes : List Change) : ClassFile :=
  changes.foldl change f

/-- The class file was empty at first, and is what changes have made of it. -/
def Made (f : ClassFile) : Prop :=
  ∃ name isInterface settings changes, (create name isInterface settings).after changes = f

variable {f g h : ClassFile} {name descriptor : String}

/-! ## Recorded methods -/

/-- The tables are within their limits, and the pool records each method. -/
structure Recorded (f : ClassFile) : Prop where
  fits : f.Fits
  methods : ∀ m ∈ f.methods, ∃ name descriptor body, m.Records f.pool name descriptor body

/-- Constants and methods of the one class file are in the other at their places. -/
structure Continues (f g : ClassFile) : Prop where
  pool : f.pool.Extends g.pool
  methods : f.methods.toList <+: g.methods.toList

theorem Continues.refl (f : ClassFile) : f.Continues f :=
  ⟨.refl _, List.prefix_refl _⟩

theorem Continues.trans (hfg : f.Continues g) (hgh : g.Continues h) : f.Continues h :=
  ⟨hfg.pool.trans hgh.pool, hfg.methods.trans hgh.methods⟩

/-- A recorded method has its name and its descriptor wherever the class file continues. -/
theorem Recorded.isMethod_eq (hf : f.Recorded) (hfg : f.Continues g) {m : MethodEntry} (hm : m ∈ f.methods) :
    g.isMethod name descriptor m = f.isMethod name descriptor m := by
  obtain ⟨_, _, _, hrecords⟩ := hf.methods m hm
  simp only [isMethod, hrecords.name, hrecords.descriptor, hfg.pool.utf8? hrecords.name, hfg.pool.utf8? hrecords.descriptor]

/-- The method that is found is found wherever the class file continues: methods in front of it keep their names and descriptors too. -/
theorem Recorded.findMethod?_of_continues (hf : f.Recorded) (hfg : f.Continues g) {m : MethodEntry}
    (hfind : f.findMethod? name descriptor = some m) : g.findMethod? name descriptor = some m := by
  obtain ⟨rest, hrest⟩ := hfg.methods
  have hsame : f.methods.toList.find? (g.isMethod name descriptor) = f.methods.toList.find? (f.isMethod name descriptor) :=
    List.find?_congr fun n hn => hf.isMethod_eq hfg (Array.mem_def.mpr hn)
  rw [findMethod?, ← Array.find?_toList] at hfind ⊢
  rw [← hrest, List.find?_append, hsame, hfind, Option.some_or]

/-- A recorded method keeps its body wherever the class file continues. -/
theorem Continues.body?_of_records (hfg : f.Continues g) {m : MethodEntry} {body : MethodBody}
    (hm : m.Records f.pool name descriptor body) : g.body? m = some body :=
  ClassFile.body?_of_records (hm.mono hfg.pool)

/-! ## One change -/

/-- More constants, and the methods that are there. -/
theorem Recorded.withPool (hf : f.Recorded) {handles : UInt8 → MemberKind → Prop} {bootstraps : Nat} {p : Pool}
    (hp : f.pool.Grows handles bootstraps p) :
    (f.withPool p).Recorded ∧ f.Continues (f.withPool p) := by
  refine ⟨⟨⟨hp.fits hf.fits.pool, hf.fits.bootstraps⟩, fun m hm => ?_⟩, hp.toExtends, List.prefix_refl _⟩
  obtain ⟨name, descriptor, body, hrecords⟩ := hf.methods m hm
  exact ⟨name, descriptor, body, hrecords.mono hp.toExtends⟩

/-- One more method, which the pool records. -/
theorem Recorded.push (hf : f.Recorded) {m : MethodEntry} {body : MethodBody} (hm : m.Records f.pool name descriptor body) :
    Recorded { f with methods := f.methods.push m } ∧ f.Continues { f with methods := f.methods.push m } := by
  refine ⟨⟨⟨hf.fits.pool, hf.fits.bootstraps⟩, fun n hn => ?_⟩, .refl _, ?_⟩
  · rcases Array.mem_push.mp hn with hn | rfl
    · exact hf.methods n hn
    · exact ⟨name, descriptor, body, hm⟩
  · rw [Array.toList_push]
    exact List.prefix_append _ _

/-- A method that may join a class file is one that its pool records. -/
theorem records_of_admitted {m : MethodEntry} (h : m.Admitted f) : ∃ name descriptor body, m.Records f.pool name descriptor body := by
  obtain ⟨name, hname⟩ := h.name
  obtain ⟨descriptor, hdescriptor⟩ := h.descriptor
  obtain ⟨index, body, hattributes, hindex, hsize, -⟩ := h.body
  exact ⟨name, descriptor, body, hname, hdescriptor, ⟨index, hattributes, hindex⟩, hsize⟩

/-- A class file that grows goes on recording its methods. -/
theorem Recorded.grows (hf : f.Recorded) (hfg : f.Grows g) : g.Recorded ∧ f.Continues g := by
  induction hfg with
  | refl => exact ⟨hf, .refl f⟩
  | constant _ hroom hnew hc ih =>
    have hpush := ih.1.withPool (.push .refl hroom hnew hc)
    exact ⟨hpush.1, ih.2.trans hpush.2⟩
  | bootstrap hg hroom hnew hb ih =>
    exact ⟨⟨(hg.bootstrap hroom hnew hb).fits hf.fits, ih.1.methods⟩, ih.2.pool, ih.2.methods⟩
  | method _ hm ih =>
    obtain ⟨_, _, _, hrecords⟩ := records_of_admitted hm
    have hpush := ih.1.push hrecords
    exact ⟨hpush.1, ih.2.trans hpush.2⟩

/-- What an added method leaves behind, whether it is there or not. -/
theorem Recorded.addMethod (hf : f.Recorded) (access : Access) (name descriptor : String) (code : CodeBuffer) :
    Ensures (addMethod access name descriptor code) f (fun _ g => g.Recorded ∧ f.Continues g) (fun _ g => g.Recorded ∧ f.Continues g) := by
  refine (outcome_addMethod Handle.Permitted f.bootstraps.size access name descriptor code hf.fits.pool).mono ?_ ?_
  · rintro _ g ⟨-, -, m, -, hrecords, hgrows, -, hg⟩
    have hpool := hf.withPool hgrows
    have hpush := hpool.1.push hrecords
    rw [hg]
    exact ⟨hpush.1, hpool.2.trans hpush.2⟩
  · rintro fault g (⟨-, -, rfl⟩ | ⟨-, -, -, rfl⟩ | ⟨-, -, -, -, hgrows, hg⟩)
    · exact ⟨hf, .refl g⟩
    · exact ⟨hf, .refl g⟩
    · rw [hg]
      exact hf.withPool hgrows

/-- Whatever is done, and whatever becomes of it, the class file continues and its methods are recorded. -/
theorem Recorded.change (hf : f.Recorded) (c : Change) : (f.change c).Recorded ∧ f.Continues (f.change c) := by
  cases c with
  | constant addition =>
    have hends : Ensures (inPool addition.step) f (fun _ g => g.Recorded ∧ f.Continues g) (fun _ g => g.Recorded ∧ f.Continues g) := by
      rw [inPool, ensures_focus]
      exact Ensures.mono (addition.gains_step hf.fits.pool) (fun _ _ h => hf.withPool h.1) (fun _ _ h => hf.withPool h)
    exact hends.snd_runStep
  | method access name descriptor code => exact (hf.addMethod access name descriptor code).snd_runStep
  | reference request => exact hf.grows (grows_lower hf.fits request)

/-! ## Changes in a row -/

theorem Recorded.after (hf : f.Recorded) (changes : List Change) : (f.after changes).Recorded ∧ f.Continues (f.after changes) := by
  induction changes generalizing f with
  | nil => exact ⟨hf, .refl f⟩
  | cons c cs ih =>
    have hstep := hf.change c
    have hrest := ih hstep.1
    exact ⟨hrest.1, hstep.2.trans hrest.2⟩

theorem recorded_create (name : String) (isInterface : Bool) (settings : Settings) : (create name isInterface settings).Recorded :=
  ⟨fits_create name isInterface settings, nofun⟩

theorem Made.recorded (hf : f.Made) : f.Recorded := by
  obtain ⟨name, isInterface, settings, changes, rfl⟩ := hf
  exact ((recorded_create name isInterface settings).after changes).1

/-- A method that is new when it is pushed is the one that is found. -/
theorem Recorded.findMethod?_push (hf : f.Recorded) (hnew : ¬ f.HasMethod name descriptor) {m : MethodEntry} {body : MethodBody}
    {p : Pool} (hp : f.pool.Extends p) (hm : m.Records p name descriptor body) :
    ({ f with pool := p, methods := f.methods.push m } : ClassFile).findMethod? name descriptor = some m := by
  have hcontinues : f.Continues (f.withPool p) := ⟨hp, List.prefix_refl _⟩
  have hold : f.methods.find? ((f.withPool p).isMethod name descriptor) = none :=
    Array.find?_eq_none.mpr fun n hn hmatch => hnew ⟨n, hn, isMethod_iff.mp ((hf.isMethod_eq hcontinues hn).symm.trans hmatch)⟩
  have hlast : (f.withPool p).isMethod name descriptor m = true := isMethod_iff.mpr ⟨hm.name, hm.descriptor⟩
  change (f.methods.push m).find? ((f.withPool p).isMethod name descriptor) = some m
  rw [Array.find?_push, hold, Option.none_or, if_pos hlast]

/-- Into a class file that was empty at first, whatever was done to it since, a method is added, and then and behind everything that is done
later its name and descriptor lead to it, and its body is read back with the depth, the locals and the code of the buffer; or there is a method
of its name and descriptor already, or else its code is too large, and then nothing is changed; or else the pool is full. Each method of the
class file is read back from its encoding. -/
theorem outcome_addMethod_of_made (hf : f.Made) (access : Access) (name descriptor : String) (code : CodeBuffer) :
    Ensures (addMethod access name descriptor code) f
        (fun _ g => ¬ f.HasMethod name descriptor ∧ code.bytes.size ≤ 65535 ∧ ∃ m, m.access = access ∧ g.methods = f.methods.push m ∧
          ∀ later, (g.after later).findMethod? name descriptor = some m ∧
            (g.after later).body? m = some ⟨code.maxDepth, code.maxLocals, code.bytes.toList⟩)
        (fun fault g => f.HasMethod name descriptor ∧ fault = .duplicateMethod name descriptor ∧ g = f ∨
          ¬ f.HasMethod name descriptor ∧ 65535 < code.bytes.size ∧ fault = .code .tooLarge ∧ g = f ∨
          ¬ f.HasMethod name descriptor ∧ code.bytes.size ≤ 65535 ∧ fault = .pool .full ∧ Pool.capacity < f.pool.entries.size + 3) ∧
      ∀ m ∈ f.methods, MethodEntry.ofBytes? m.toBytes = some m := by
  have hrecorded := hf.recorded
  constructor
  · have hends := outcome_addMethod Handle.Permitted f.bootstraps.size access name descriptor code hrecorded.fits.pool
    refine (hends.and (hrecorded.addMethod access name descriptor code)).mono ?_ ?_
    · rintro _ g ⟨⟨hnew, hsize, m, haccess, hrecords, hgrows, -, hg⟩, hrecorded', -⟩
      have hfind : g.findMethod? name descriptor = some m := by
        rw [hg]
        exact hrecorded.findMethod?_push hnew hgrows.toExtends hrecords
      refine ⟨hnew, hsize, m, haccess, by rw [hg], fun later => ?_⟩
      have hlater := (hrecorded'.after later).2
      exact ⟨hrecorded'.findMethod?_of_continues hlater hfind, hlater.body?_of_records hrecords⟩
    · rintro fault g ⟨h | h | ⟨hnew, hsize, hfault, hfull, -⟩, -⟩
      · exact .inl h
      · exact .inr (.inl h)
      · exact .inr (.inr ⟨hnew, hsize, hfault, hfull⟩)
  · intro m hm
    obtain ⟨_, _, _, hrecords⟩ := hrecorded.methods m hm
    exact MethodEntry.ofBytes?_toBytes hrecords.fits

/-- The one method of a class file, read back from its encoding, and found with its code when a reference has been lowered. -/
theorem outcome_addMethod_of_made_sample :
    ∃ f m, (create "demo/Main" false {}).after [.method .accStatic "f" "()V" (CodeBuffer.emitOp {} Opcode.vreturn)] = f ∧
      f.methods = #[m] ∧ MethodEntry.ofBytes? m.toBytes = some m ∧
      (f.after [.reference .sample]).findMethod? "f" "()V" = some m ∧ (f.after [.reference .sample]).body? m = some ⟨0, 0, [0xb1]⟩ := by
  have hempty : Made (create "demo/Main" false {}) := ⟨"demo/Main", false, {}, [], rfl⟩
  have hnew : ¬ (create "demo/Main" false {}).HasMethod "f" "()V" := not_hasMethod_of_empty rfl
  obtain ⟨g, hrun⟩ := addMethod_eq_ok .accStatic (CodeBuffer.emitOp {} Opcode.vreturn) hnew (by decide) (by decide)
  obtain ⟨-, -, m, -, hmethods, hlater⟩ := (outcome_addMethod_of_made hempty .accStatic "f" "()V" _).1.of_ok hrun
  have hg : (create "demo/Main" false {}).after [.method .accStatic "f" "()V" (CodeBuffer.emitOp {} Opcode.vreturn)] = g := by
    simp only [after, List.foldl_cons, List.foldl_nil, change, runStep, hrun]
  have hm : m ∈ g.methods := by
    rw [hmethods]
    exact Array.mem_push_self
  have hread := (outcome_addMethod_of_made ⟨"demo/Main", false, {}, _, hg⟩ .accStatic "f" "()V" {}).2 m hm
  exact ⟨g, m, hg, hmethods, hread, hlater [.reference .sample]⟩

end ClassFile

end Linkage
