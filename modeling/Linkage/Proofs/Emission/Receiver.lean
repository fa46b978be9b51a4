import Linkage.Emission.Receiver
import Linkage.Proofs.Emission.Code
import Linkage.Proofs.Emission.Growth
import Linkage.Proofs.Machine.Writing

/-!
# Receivers are compiled correctly

Emission of an expression appends code for it to the buffer (`Expr.adds_emit`) and pushes one entry on the tracked stack, which never
runs short on the way (`Expr.pushes_emit`). With what the code does when it runs, both make up the correctness of the compiler.
-/

namespace Linkage

open Emit

variable {handles : UInt8 → MemberKind → Prop} {bootstraps : Nat}

/-! ## The code that is written -/

/-- What is pushed on the tracked stack behind an instruction writes no byte. -/
theorem CodeBuffer.Writes.appends_push {b c : CodeBuffer} {is : List Instruction} (h : b.Writes c is) (entry : StackType) :
    b.Appends (c.push entry) is :=
  h.appends.of_bytes rfl

/-- A literal is written as code for it. -/
theorem Literal.adds_emit (l : Literal) {e : Emission} (he : e.pool.Fits) :
    Adds handles bootstraps l.emit e fun _ t => ∃ is, e.code.Appends t.code is ∧ l.HasCode t.pool is := by
  cases l with
  | integer v =>
    unfold Literal.emit
    dsimp only
    split
    · rename_i h
      refine (adds_write _).mono fun _ t _ ⟨_, ht⟩ => ⟨_, ?_, .inl rfl⟩
      rw [ht]
      exact (CodeBuffer.writes_emitOp _ (Instruction.decodes_iconst h)).appends_push _
    · split
      · rename_i h
        refine (adds_write _).mono fun _ t _ ⟨_, ht⟩ => ⟨_, ?_, .inl rfl⟩
        rw [ht]
        exact (CodeBuffer.writes_emitOp1 _ (Instruction.decodes_bipush h)).appends_push _
      · split
        · rename_i h
          refine (adds_write _).mono fun _ t _ ⟨_, ht⟩ => ⟨_, ?_, .inl rfl⟩
          rw [ht]
          exact (CodeBuffer.writes_emitOp2 _ (Instruction.decodes_sipush h)).appends_push _
        · refine Adds.bind (adds_inPool (Pool.adds_addInteger v he)) fun i e₁ _ ⟨hcode, hi⟩ => ?_
          refine (adds_write _).mono fun _ t _ ⟨hpool, ht⟩ => ⟨_, ?_, .inr ⟨i, rfl, ?_⟩⟩
          · obtain ⟨c, hc, hpush⟩ := CodeBuffer.loadConstant_eq_push e₁.code i .int
            rw [ht, hpush, ← hcode]
            exact hc.appends_push _
          · rw [hpool]
            exact hi
  | text s =>
    refine Adds.bind (adds_inPool (Pool.adds_addString s he)) ?_
    intro i e₁ _ hview
    obtain ⟨hcode, n, hi, hn⟩ := hview
    refine (adds_write _).mono fun _ t _ ⟨hpool, ht⟩ => ⟨_, ?_, i, n, rfl, ?_, ?_⟩
    · obtain ⟨c, hc, hpush⟩ := CodeBuffer.loadConstant_eq_push e₁.code i (.object WellKnown.string)
      rw [ht, hpush, ← hcode]
      exact hc.appends_push _
    · rw [hpool]
      exact hi
    · rw [hpool]
      exact hn
  | null =>
    refine (adds_write _).mono fun _ t _ ⟨_, ht⟩ => ⟨_, ?_, rfl⟩
    rw [ht]
    exact (CodeBuffer.writes_emitOp _ (Instruction.decodes_single rfl rfl)).appends_push _

/-- A local is loaded by one instruction. -/
theorem Emit.adds_load (type : JType) (slot : Nat) (e : Emission) :
    Adds handles bootstraps (inCode (CodeBuffer.load type slot)) e fun _ t =>
      ∃ kind, SlotKind.ofType? type = some kind ∧ e.code.Appends t.code [.load kind slot] := by
  refine (adds_inCode (CodeBuffer.ensures_load type slot e.code)).mono ?_
  intro _ t _ hview
  obtain ⟨-, kind, entry, c, hkind, -, -, hc, ht⟩ := hview
  rw [ht]
  exact ⟨kind, hkind, hc.appends_push entry⟩

/-- Only the tracked stack is changed by what is known of a field's value. -/
theorem Emit.adds_pushField (owner name : String) (type : JType) (e : Emission) :
    Adds handles bootstraps (pushField owner name type) e fun _ t => t.pool = e.pool ∧ t.code.bytes = e.code.bytes := by
  unfold pushField
  split
  · rename_i entry _
    refine (adds_write _).mono fun _ t _ ⟨hpool, ht⟩ => ⟨hpool, ?_⟩
    rw [ht]
    rfl
  · exact .refl

/-- The check of a call adds nothing. -/
theorem Emit.adds_checkCall (owner name : String) (params : List JType) (result : JType) (args : List Expr) (e : Emission) :
    Adds handles bootstraps (checkCall owner name params result args) e fun _ t =>
      t = e ∧ result ≠ .void ∧ args.length = params.length := by
  unfold checkCall
  split
  · exact .refl
  · rename_i hresult
    split
    · exact .refl
    · rename_i hcount
      exact ⟨.refl, rfl, hresult, Decidable.not_not.mp hcount⟩

/-- A call is written as one instruction that names the method. -/
theorem Emit.adds_call (call : CallKind) (kind : MemberKind) (owner name : String) (params : List JType) (result : JType)
    {e : Emission} (he : e.pool.Fits) :
    Adds handles bootstraps (invoke call.opcode kind owner name params result) e fun _ t =>
      ∃ i, e.code.Appends t.code [.call call i] ∧
        t.pool.kindAndMember? i = some (kind, owner, name, methodDescriptor params result) := by
  refine (adds_invoke call kind owner name params result he).mono ?_
  intro _ t _ hview
  obtain ⟨i, c, d, hc, hd, ht, hi⟩ := hview
  refine ⟨i, hc.appends.of_bytes ?_, hi⟩
  rw [ht, CodeBuffer.bytes_pushType, hd.eq]

/-- The opcode of a call by the kind of the call. -/
theorem CallKind.opcode_ofTarget (onInterface : Bool) :
    (if onInterface then Opcode.invokeinterface else Opcode.invokevirtual) = (CallKind.ofTarget onInterface).opcode := by
  cases onInterface <;> rfl

mutual

/-- Emission of an expression appends code for it, which is code for it in the pool behind. -/
theorem Expr.adds_emit {handles : UInt8 → MemberKind → Prop} {bootstraps : Nat} (x : Expr) {e : Emission} (he : e.pool.Fits) :
    Adds handles bootstraps x.emit e fun _ t => ∃ is, e.code.Appends t.code is ∧ x.HasCode t.pool is := by
  cases x with
  | this type s =>
    rw [Expr.emit]
    exact (adds_load type 0 e).mono fun _ _ _ ⟨kind, hkind, h⟩ => ⟨_, h, kind, hkind, rfl⟩
  | localVar name slot type s =>
    rw [Expr.emit]
    exact (adds_load type slot e).mono fun _ _ _ ⟨kind, hkind, h⟩ => ⟨_, h, kind, hkind, rfl⟩
  | literal value s =>
    rw [Expr.emit]
    refine (value.adds_emit he).mono fun _ t _ ⟨is, h, his⟩ => ⟨is, h, ?_⟩
    rw [Expr.HasCode]
    exact his
  | staticField owner name type s =>
    rw [Expr.emit]
    refine Adds.bind (adds_inPool (Pool.adds_addMember .field owner name type.descriptor he)) ?_
    intro i e₁ _ hview
    obtain ⟨hcode, hi⟩ := hview
    refine Adds.bind (adds_write _) ?_
    intro _ e₂ _ hview
    obtain ⟨hpool₂, hcode₂⟩ := hview
    refine (adds_pushField owner name type e₂).mono fun _ t _ ⟨hpool, hbytes⟩ => ⟨_, ?_, i, rfl, ?_⟩
    · rw [← hcode]
      refine (CodeBuffer.writes_emitOp2 e₁.code (Instruction.decodes_getstatic i)).appends.of_bytes ?_
      rw [hbytes, hcode₂]
    · rw [hpool, hpool₂]
      exact hi
  | field target owner name type s =>
    rw [Expr.emit]
    refine Adds.bind (adds_inPool (Pool.adds_addMember .field owner name type.descriptor he)) ?_
    intro i e₁ h₁ hview
    obtain ⟨hcode, hi⟩ := hview
    refine Adds.bind (target.adds_emit (h₁.fits he)) ?_
    intro _ e₂ h₂ hview
    obtain ⟨js, hjs, htarget⟩ := hview
    refine Adds.bind (adds_write _) ?_
    intro _ e₃ _ hview
    obtain ⟨hpool₃, hcode₃⟩ := hview
    refine Adds.bind (adds_inCode (CodeBuffer.ensures_pop 1 e₃.code)) ?_
    intro _ e₄ _ hview
    obtain ⟨hpool₄, hcode₄⟩ := hview
    refine (adds_pushField owner name type e₄).mono fun _ t _ ⟨hpool, hbytes⟩ => ⟨js ++ [.getfield i], ?_, ?_⟩
    · rw [← hcode]
      refine hjs.trans ((CodeBuffer.writes_emitOp2 e₂.code (Instruction.decodes_getfield i)).appends.of_bytes ?_)
      rw [hbytes, hcode₄.eq, hcode₃]
    · rw [Expr.HasCode, hpool, hpool₄, hpool₃]
      exact ⟨js, i, rfl, htarget, h₂.toExtends.kindAndMember? hi⟩
  | staticCall owner onInterface name params result args s =>
    rw [Expr.emit]
    refine Adds.bind (adds_checkCall owner name params result args e) ?_
    intro _ e₁ _ hview
    obtain ⟨heq, hresult, hcount⟩ := hview
    subst heq
    refine Adds.bind (Expr.adds_emitAll args he) ?_
    intro _ e₂ h₂ hview
    obtain ⟨js, hjs, hargs⟩ := hview
    refine (adds_call .onClass (.ofMethod onInterface) owner name params result (h₂.fits he)).mono ?_
    intro _ t h hview
    obtain ⟨i, hcode, hi⟩ := hview
    refine ⟨js ++ [.call .onClass i], hjs.trans hcode, ?_⟩
    rw [Expr.HasCode]
    exact ⟨js, i, rfl, hargs.mono h.toExtends, hcount, hresult, hi⟩
  | call target owner onInterface name params result args s =>
    rw [Expr.emit, CallKind.opcode_ofTarget]
    refine Adds.bind (adds_checkCall owner name params result args e) ?_
    intro _ e₁ _ hview
    obtain ⟨heq, hresult, hcount⟩ := hview
    subst heq
    refine Adds.bind (target.adds_emit he) ?_
    intro _ e₂ h₂ hview
    obtain ⟨js, hjs, htarget⟩ := hview
    have he₂ := h₂.fits he
    refine Adds.bind (Expr.adds_emitAll args he₂) ?_
    intro _ e₃ h₃ hview
    obtain ⟨ks, hks, hargs⟩ := hview
    refine (adds_call (.ofTarget onInterface) (.ofMethod onInterface) owner name params result (h₃.fits he₂)).mono
      fun _ t h ⟨i, hcode, hi⟩ => ?_
    refine ⟨js ++ ks ++ [.call (.ofTarget onInterface) i], (hjs.trans hks).trans hcode, ?_⟩
    rw [Expr.HasCode]
    exact ⟨js, ks, i, rfl, htarget.mono (h₃.trans h).toExtends, hargs.mono h.toExtends, hcount, hresult, hi⟩

/-- Emission of expressions in a row appends code for them. -/
theorem Expr.adds_emitAll {handles : UInt8 → MemberKind → Prop} {bootstraps : Nat} (xs : List Expr) {e : Emission}
    (he : e.pool.Fits) :
    Adds handles bootstraps (Expr.emitAll xs) e fun _ t => ∃ is, e.code.Appends t.code is ∧ Expr.HaveCode t.pool xs is := by
  cases xs with
  | nil =>
    rw [Expr.emitAll]
    refine ⟨.refl, [], .refl _, ?_⟩
    rw [Expr.HaveCode]
  | cons x xs =>
    rw [Expr.emitAll]
    refine Adds.bind (x.adds_emit he) ?_
    intro _ e₁ h₁ hview
    obtain ⟨js, hjs, hx⟩ := hview
    refine (Expr.adds_emitAll xs (h₁.fits he)).mono fun _ t h ⟨ks, hks, hxs⟩ => ⟨js ++ ks, hjs.trans hks, ?_⟩
    rw [Expr.HaveCode]
    exact ⟨js, ks, rfl, hx.mono h.toExtends, hxs⟩

end

/-- The code of an expression lets the pool grow. -/
theorem Expr.growsPool_emit (x : Expr) : GrowsPool handles bootstraps x.emit :=
  fun _ he => (x.adds_emit he).mono fun _ _ _ _ => trivial

/-! ## The tracked stack -/

/-- What is known of the value of an expression on the stack: that of its static type, but for the null literal. -/
def Expr.stackType? : Expr → Option StackType
  | .literal .null _ => some .null
  | x => StackType.ofType? x.type

/-- The step pushes one entry on the tracked stack, and never finds too few entries on it. -/
def Emit.Pushes (pushed : Option StackType) (step : Emit Unit) : Prop :=
  ∀ e, Ensures step e (fun _ t => ∃ entry, pushed = some entry ∧ t.code.stack = entry :: e.code.stack)
    (fun fault _ => fault ≠ .ofCode .stackUnderflow)

/-- Faults of the buffer stay apart. -/
theorem Emit.ofCode_injective {a b : CodeFault} (h : Fault.ofCode a = Fault.ofCode b) : a = b := by
  cases h
  rfl

/-- Steps on the pool touch no stack. -/
theorem Emit.ensures_inPool {α : Type} (step : Pool.Step α) (e : Emission) :
    Ensures (inPool step) e (fun _ t => t.code = e.code) (fun fault _ => fault ≠ .ofCode .stackUnderflow) := by
  rw [inPool, ensures_focus]
  exact Ensures.intro (fun _ _ _ => rfl) (fun _ _ _ => by simp [Fault.ofPool, Fault.ofCode])

/-- What only writes ends in the buffer that was written. -/
theorem Emit.ensures_write (f : CodeBuffer → CodeBuffer) {e : Emission} {ok : Unit → Emission → Prop} {err : Fault → Emission → Prop}
    (h : ok () { e with code := f e.code }) : Ensures (write f) e ok err := by
  rw [write, inCode, ensures_focus, ensures_modify]
  exact h

/-- A load pushes a value of its type. -/
theorem Emit.pushes_load (type : JType) (slot : Nat) : Pushes (StackType.ofType? type) (inCode (CodeBuffer.load type slot)) := by
  intro e
  rw [inCode, ensures_focus]
  refine (CodeBuffer.ensures_load type slot e.code).mono ?_ ?_
  · intro _ _ hview
    obtain ⟨kind, entry, c, -, hentry, -, hc, rfl⟩ := hview
    exact ⟨entry, hentry, by simp [CodeBuffer.push, hc.stack]⟩
  · rintro fault _ ⟨⟨-, rfl⟩ | ⟨-, rfl⟩, -⟩ h
    · cases ofCode_injective h
    · cases ofCode_injective h

/-- A field's value is pushed by its type. -/
theorem Emit.pushes_pushField (owner name : String) (type : JType) :
    Pushes (StackType.ofType? type) (pushField owner name type) := by
  intro e
  unfold pushField
  split
  · rename_i entry hentry
    exact ensures_write _ ⟨entry, hentry, rfl⟩
  · rw [ensures_throw]
    simp [Fault.ofCode]

/-- A call with a value takes its arguments and its target from the top of the stack. -/
theorem Emit.ensures_invoke (call : CallKind) {kind : MemberKind} {owner name : String} {params : List JType} {result : JType}
    {taken rest : List StackType} {e : Emission} (hstack : e.code.stack = taken ++ rest)
    (hcount : taken.length = params.length + call.targets) (hresult : result ≠ .void) :
    Ensures (invoke call.opcode kind owner name params result) e
      (fun _ t => ∃ entry, StackType.ofType? result = some entry ∧ t.code.stack = entry :: rest)
      (fun fault _ => fault ≠ .ofCode .stackUnderflow) := by
  obtain ⟨_, entry, _, hentry⟩ := (CodeBuffer.ofType?_cases result).resolve_left hresult
  unfold invoke
  rw [ensures_bind]
  refine (ensures_inPool _ e).mono ?_ (fun _ _ h => h)
  intro i e₁ hcode
  rw [inCode, ensures_focus, hcode]
  refine (CodeBuffer.ensures_invoke call i params result e.code).mono ?_ ?_
  · intro _ _ hview
    obtain ⟨c, d, hc, hd, rfl⟩ := hview
    refine ⟨entry, hentry, ?_⟩
    have hrest : d.stack = rest := by
      rw [hd.eq, hc.stack, hstack, ← hcount, List.drop_left]
    simp [CodeBuffer.pushType_eq_push hentry, CodeBuffer.push, hrest]
  · intro fault _ hview
    obtain ⟨-, hlt⟩ := hview
    rw [hstack, List.length_append] at hlt
    omega

/-- A call that passes its check has a result and as many arguments as parameters. The stack is not looked at. -/
theorem Emit.ensures_checkCall (owner name : String) (params : List JType) (result : JType) (args : List Expr) (e : Emission) :
    Ensures (checkCall owner name params result args) e (fun _ t => t = e ∧ result ≠ .void ∧ args.length = params.length)
      (fun fault _ => fault ≠ .ofCode .stackUnderflow) := by
  unfold checkCall
  split
  · rw [ensures_throw]
    simp [Fault.ofCode]
  · rename_i hresult
    split
    · rw [ensures_throw]
      simp [Fault.ofCode]
    · rename_i hcount
      rw [ensures_pure]
      exact ⟨rfl, hresult, Decidable.not_not.mp hcount⟩

/-- A literal pushes one value of its type. -/
theorem Literal.pushes_emit (l : Literal) (s : Span) : Pushes (Expr.literal l s).stackType? l.emit := by
  intro e
  cases l with
  | integer v =>
    unfold Literal.emit
    dsimp only
    split
    · exact ensures_write _ ⟨.int, rfl, rfl⟩
    · split
      · exact ensures_write _ ⟨.int, rfl, rfl⟩
      · split
        · exact ensures_write _ ⟨.int, rfl, rfl⟩
        · rw [ensures_bind]
          refine (ensures_inPool _ e).mono ?_ (fun _ _ h => h)
          intro i e₁ hcode
          obtain ⟨c, hc, hpush⟩ := CodeBuffer.loadConstant_eq_push e₁.code i .int
          refine ensures_write _ ⟨.int, rfl, ?_⟩
          rw [← hcode, hpush]
          exact congrArg _ hc.stack
  | text t =>
    unfold Literal.emit
    rw [ensures_bind]
    refine (ensures_inPool _ e).mono ?_ (fun _ _ h => h)
    intro i e₁ hcode
    obtain ⟨c, hc, hpush⟩ := CodeBuffer.loadConstant_eq_push e₁.code i (.object WellKnown.string)
    refine ensures_write _ ⟨.object WellKnown.string, rfl, ?_⟩
    rw [← hcode, hpush]
    exact congrArg _ hc.stack
  | null => exact ensures_write _ ⟨.null, rfl, rfl⟩

mutual

/-- Emission of an expression pushes one entry and never finds the stack too short. -/
theorem Expr.pushes_emit (x : Expr) : Pushes x.stackType? x.emit := by
  intro e
  cases x with
  | this type s =>
    rw [Expr.emit]
    exact pushes_load type 0 e
  | localVar name slot type s =>
    rw [Expr.emit]
    exact pushes_load type slot e
  | literal value s =>
    rw [Expr.emit]
    exact value.pushes_emit s e
  | staticField owner name type s =>
    rw [Expr.emit, ensures_bind]
    refine (ensures_inPool _ e).mono ?_ (fun _ _ h => h)
    intro i e₁ hcode
    rw [ensures_bind]
    refine ensures_write _ ?_
    refine (pushes_pushField owner name type _).mono ?_ (fun _ _ h => h)
    intro _ t hview
    obtain ⟨entry, hentry, ht⟩ := hview
    refine ⟨entry, hentry, ?_⟩
    rw [ht, ← hcode]
    rfl
  | field target owner name type s =>
    rw [Expr.emit, ensures_bind]
    refine (ensures_inPool _ e).mono ?_ (fun _ _ h => h)
    intro i e₁ hcode
    rw [ensures_bind]
    refine (target.pushes_emit e₁).mono ?_ (fun _ _ h => h)
    intro _ e₂ hview
    obtain ⟨object, -, hobject⟩ := hview
    rw [ensures_bind]
    refine ensures_write _ ?_
    rw [ensures_bind, inCode, ensures_focus]
    refine (CodeBuffer.ensures_pop 1 _).mono ?_ ?_
    · intro _ c hc
      refine (pushes_pushField owner name type _).mono ?_ (fun _ _ h => h)
      intro _ t hview
      obtain ⟨entry, hentry, ht⟩ := hview
      refine ⟨entry, hentry, ?_⟩
      have hrest : c.stack = e₂.code.stack.drop 1 := by
        rw [hc.eq]
        rfl
      rw [ht, hrest, hobject, ← hcode]
      rfl
    · -- the target has just been pushed, so there is something to pop
      intro fault c hview
      obtain ⟨-, -, hlt⟩ := hview
      have hlength : e₂.code.stack.length < 1 := hlt
      rw [hobject, List.length_cons] at hlength
      omega
  | staticCall owner onInterface name params result args s =>
    rw [Expr.emit, ensures_bind]
    refine (ensures_checkCall owner name params result args e).mono ?_ (fun _ _ h => h)
    intro _ _ hview
    obtain ⟨rfl, hresult, hcount⟩ := hview
    rw [ensures_bind]
    refine (Expr.ensures_emitAll args _).mono ?_ (fun _ _ h => h)
    intro _ e₁ hview
    obtain ⟨entries, hentries, hstack⟩ := hview
    exact ensures_invoke .onClass hstack (hentries.trans hcount) hresult
  | call target owner onInterface name params result args s =>
    rw [Expr.emit, CallKind.opcode_ofTarget, ensures_bind]
    refine (ensures_checkCall owner name params result args e).mono ?_ (fun _ _ h => h)
    intro _ e₀ hview
    obtain ⟨he, hresult, hcount⟩ := hview
    rw [he, ensures_bind]
    refine (target.pushes_emit e).mono ?_ (fun _ _ h => h)
    intro _ e₁ hview
    obtain ⟨object, -, hobject⟩ := hview
    rw [ensures_bind]
    refine (Expr.ensures_emitAll args e₁).mono ?_ (fun _ _ h => h)
    intro _ e₂ hview
    obtain ⟨entries, hentries, hstack⟩ := hview
    have htaken : e₂.code.stack = (entries ++ [object]) ++ e.code.stack := by
      rw [hstack, hobject, List.append_assoc]
      rfl
    refine ensures_invoke (.ofTarget onInterface) htaken ?_ hresult
    rw [List.length_append, hentries, hcount]
    cases onInterface <;> rfl

/-- Emission of expressions in a row pushes an entry for each. -/
theorem Expr.ensures_emitAll (xs : List Expr) (e : Emission) :
    Ensures (Expr.emitAll xs) e (fun _ t => ∃ entries, entries.length = xs.length ∧ t.code.stack = entries ++ e.code.stack)
      (fun fault _ => fault ≠ .ofCode .stackUnderflow) := by
  cases xs with
  | nil =>
    rw [Expr.emitAll, ensures_pure]
    exact ⟨[], rfl, rfl⟩
  | cons x xs =>
    rw [Expr.emitAll, ensures_bind]
    refine (x.pushes_emit e).mono ?_ (fun _ _ h => h)
    intro _ e₁ hview
    obtain ⟨entry, -, hentry⟩ := hview
    refine (Expr.ensures_emitAll xs e₁).mono ?_ (fun _ _ h => h)
    intro _ t hview
    obtain ⟨entries, hlength, hstack⟩ := hview
    exact ⟨entries ++ [entry], by simp [hlength], by rw [hstack, hentry]; simp⟩

end

/-! ## Both together -/

/-- The bytes that emission of an expression appends push the value of the expression and nothing else: read with the pool behind or any
that extends it, they run to its value above the stack that was there, by the effects of evaluating it from left to right. The tracked
stack gains the one entry of the expression, and emission never fails for want of one. -/
theorem Expr.emit_evaluates (x : Expr) (start : Emission) (hfits : start.pool.Fits) (hplain : x.Plain) :
    (∀ final, x.emit start = .ok () final → ∃ code is entry,
      final.code.bytes.toList = start.code.bytes.toList ++ code ∧ Instruction.decodeAll code = some is ∧
        (∀ p, final.pool.Extends p → ∀ (V : Type) (w : World V) (m : Machine V),
          Instruction.execAll? w p is m = some ⟨(x.eval w m.trace).1 :: m.stack, (x.eval w m.trace).2⟩) ∧
        x.stackType? = some entry ∧ final.code.stack = entry :: start.code.stack) ∧
      ∀ fault left, x.emit start = .error fault left → fault ≠ .ofCode .stackUnderflow := by
  constructor
  · intro final hrun
    have hcode : Adds (fun _ _ => True) 0 x.emit start _ := x.adds_emit hfits
    obtain ⟨-, is, ⟨code, hbytes, hdecodes⟩, his⟩ := Ensures.of_ok hcode hrun
    obtain ⟨entry, hentry, hstack⟩ := (x.pushes_emit start).of_ok hrun
    exact ⟨code, is, entry, hbytes, hdecodes.decodeAll, fun p hp V w m => (his.mono hp).execAll?_eq hplain w m, hentry, hstack⟩
  · intro fault left hrun
    exact (x.pushes_emit start).of_error hrun

/-- `first.concat("x")`, where `first` is a field of the object in slot 1. -/
def Expr.sampleCall : Expr :=
  .call (.field (.localVar "pair" 1 (.ofClass "demo/Pair") .unknown) "demo/Pair" "first" .string .unknown) WellKnown.string false
    "concat" [.string] .string [.literal (.text "x") .unknown] .unknown

theorem Expr.emit_evaluates_sampleCall : Pool.Fits {} ∧ Expr.sampleCall.Plain ∧
    ∃ final, Expr.sampleCall.emit ⟨{}, {}⟩ = .ok () final ∧ final.code.stack = [.object WellKnown.string] := by
  have hplain : Expr.sampleCall.Plain := by
    simp [Expr.sampleCall, Expr.Plain, Expr.AllPlain, JType.string, JType.ofClass, JType.Plain, WellKnown.string]
  have hrun : (runStep Expr.sampleCall.emit ⟨{}, {}⟩).1.toOption = some () := by decide +kernel
  unfold runStep at hrun
  split at hrun
  · rename_i final h
    obtain ⟨_, _, entry, _, _, _, hentry, hstack⟩ := (Expr.emit_evaluates Expr.sampleCall ⟨{}, {}⟩ Pool.fits_empty hplain).1 final h
    cases hentry
    exact ⟨Pool.fits_empty, hplain, final, h, hstack⟩
  · cases hrun

end Linkage
