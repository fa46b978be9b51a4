import Linkage.Proofs.Lowering.Run

/-!
# Linked references

What lowering has done when it answers a call site: the record of the site is what the class file holds, then and after every later
request, and the code has grown by the receiver and the instruction of the site.
-/

namespace Linkage

/-- The bytes `code` are those of the receiver in front of a call site: none, unless the target is a value and the method needs one. -/
def Reference.ReceiverCode (r : Reference) (method : MethodDecl) (start : Emission) (code : List UInt8) : Prop :=
  match r.target with
  | .type _ _ => code = []
  | .value x => if method.isStatic then code = [] else
    ∃ e, x.emit start = .ok () e ∧ e.code.bytes.toList = start.code.bytes.toList ++ code

namespace Linked

variable {bootstrap : BootstrapMethod} {r : Reference} {f : FunctionalInterface} {w t : Workspace} {l : Linked}

/-- A reference to a constructor does not have a value as its target. -/
theorem Of.captured? (h : l.Of bootstrap r f w t) : l.binding.captured? r.target =
    match r.target with
    | .type _ _ => none
    | .value x => if l.binding.method.isStatic then none else some x := by
  obtain ⟨v, hv⟩ := h.binding
  cases htarget : r.target with
  | type type span => rfl
  | value x =>
    have hcreation : l.binding.isCreation = false := by
      rw [hv.isCreation]
      cases hr : r.isCreation with
      | false => rfl
      | true =>
        have htype := hv.target hr
        rw [htarget] at htype
        cases htype
    simp [Binding.captured?, hcreation]

/-- The code behind a linked reference: what was there, the receiver, the instruction. On the tracked stack the functional interface has
taken the place of the receiver. -/
theorem Of.code_eq (h : l.Of bootstrap r f w t) (hw : w.file.Fits) :
    ∃ receiver, r.ReceiverCode l.binding.method w.emission receiver ∧
      t.code.bytes.toList = w.code.bytes.toList ++ receiver ++ (Opcode.invokedynamic :: be16 l.site.constantIndex ++ [0, 0]) ∧
      t.code.stack = .object f.type.constantName :: w.code.stack := by
  obtain ⟨code, hwritten, hrun⟩ := h.code
  obtain ⟨hbytes, hstack⟩ := (CodeBuffer.ensures_invokeDynamic _ _ _ code).of_ok hrun
  have hcaptures : l.site.capturesReceiver = (l.binding.captured? r.target).isSome := by
    rw [h.site]
    rfl
  have htarget := h.captured?
  cases hcaptured : l.binding.captured? r.target with
  | none =>
    simp only [CallSite.ReceiverWritten, hcaptured] at hwritten
    refine ⟨[], ?_, ?_, ?_⟩
    · unfold Reference.ReceiverCode
      rw [hcaptured] at htarget
      split
      · rfl
      · simp_all
    · rw [hbytes, hwritten, List.append_nil]
      rfl
    · rw [hstack, hwritten, hcaptures, hcaptured]
      rfl
  | some x =>
    simp only [CallSite.ReceiverWritten, hcaptured] at hwritten
    obtain ⟨p, hemit⟩ := hwritten
    have hcode : Emit.Adds (fun _ _ => True) 0 x.emit w.emission _ := x.adds_emit hw.pool
    obtain ⟨-, is, ⟨receiver, hreceiver, -⟩, -⟩ := Ensures.of_ok hcode hemit
    obtain ⟨entry, -, hentry⟩ := (x.pushes_emit w.emission).of_ok hemit
    refine ⟨receiver, ?_, ?_, ?_⟩
    · unfold Reference.ReceiverCode
      rw [hcaptured] at htarget
      split
      · simp_all
      · simp_all
    · rw [hbytes, hreceiver]
      rfl
    · rw [hstack, hentry, hcaptures, hcaptured]
      rfl

end Linked

namespace Request

/-- A request that is answered by a call site leaves what `Linked.Of` says. -/
theorem linked_of_lower {q : Request} {f : ClassFile} (hf : f.Fits) {l : Linked} (hl : (q.lower f).1 = .ok (.linked l)) :
    ∃ interface inferred, q.reference.findings q.classes = .ok (interface, inferred) ∧
      l.Of q.settings.bootstrap q.reference interface (q.workspace f) (q.lower f).2 := by
  have h : Lower.Adds (Lower.checkedReference q.context q.reference) (q.workspace f) _ := Lower.adds_checkedReference hf rfl
  unfold lower runStep at hl ⊢
  cases hrun : Lower.checkedReference q.context q.reference (q.workspace f) with
  | ok outcome t =>
    rw [hrun] at hl
    exact (Ensures.of_ok h hrun).2 l (Except.ok.inj hl)
  | error fault t =>
    rw [hrun] at hl
    cases hl

/-- A call site that lowering answers is described by its record, in the class file it leaves and after any later requests: the entry
of the site, its bootstrap method and the arguments of that. The implementing method is named with its owner, as a member of an
interface exactly when the owner is one. The code has grown by the receiver, if one is captured, and by the instruction of the site, and
the tracked stack by the functional interface. -/
theorem describes_lower (q : Request) (f : ClassFile) (hf : f.Fits) (l : Linked) (hl : (q.lower f).1 = .ok (.linked l)) :
    (∀ later, ((q.lower f).2.file.lowerAll later).Describes q.settings.bootstrap (q.reference.ownerIsInterface (q.workspace f)) l.site) ∧
      l.site.owner = (q.reference.owner (q.workspace f)).constantName ∧
      ∃ interface inferred receiver, q.reference.findings q.classes = .ok (interface, inferred) ∧
        q.reference.ReceiverCode l.binding.method ⟨f.pool, q.code⟩ receiver ∧
        (q.lower f).2.code.bytes.toList =
          q.code.bytes.toList ++ receiver ++ (Opcode.invokedynamic :: be16 l.site.constantIndex ++ [0, 0]) ∧
        (q.lower f).2.code.stack = .object interface.type.constantName :: q.code.stack := by
  obtain ⟨interface, inferred, hfindings, h⟩ := linked_of_lower hf hl
  obtain ⟨v, hbinding⟩ := h.binding
  obtain ⟨receiver, hreceiver, hbytes, hstack⟩ := h.code_eq hf
  have hfits : (q.lower f).2.file.Fits := (ClassFile.grows_lower hf q).fits hf
  refine ⟨fun later => ?_, ?_, interface, inferred, receiver, hfindings, hreceiver, hbytes, hstack⟩
  · rw [← hbinding.ownerIsInterface]
    exact h.described.mono (ClassFile.grows_lowerAll hfits later)
  · rw [h.site, ← hbinding.owner]
    rfl

/-- The sample request is answered by a call site, and the class file holds it. -/
theorem describes_lower_sample : (ClassFile.create "demo/Main" false {}).Fits ∧
    ∃ l, (sample.lower (.create "demo/Main" false {})).1 = .ok (.linked l) ∧
      ((sample.lower (.create "demo/Main" false {})).2.file.lowerAll [sample]).Describes {} false l.site := by
  have hfits := ClassFile.fits_create "demo/Main" false {}
  have hlinked : (sample.lower (.create "demo/Main" false {})).1.toOption.any (fun outcome => outcome matches .linked _) = true := by
    decide +kernel
  cases hrun : (sample.lower (.create "demo/Main" false {})).1 with
  | error fault =>
    rw [hrun] at hlinked
    cases hlinked
  | ok outcome =>
    cases outcome with
    | fallback reason =>
      rw [hrun] at hlinked
      cases hlinked
    | linked l =>
      have h := (describes_lower sample (.create "demo/Main" false {}) hfits l hrun).1 [sample]
      have hinterface : sample.reference.ownerIsInterface (sample.workspace (.create "demo/Main" false {})) = false := by
        decide +kernel
      rw [hinterface] at h
      exact ⟨hfits, l, rfl, h⟩

end Request

end Linkage
