import Linkage.Proofs.Emission.Depth
import Linkage.Proofs.Emission.Settling

/-!
# Emission that breaks off

An expression may fail when some of it has been written already, and the buffer is not rolled back then. `Expr.BreaksOff` follows a
failing emission to the part that fails: down through the operand that could not be written, to the fault of one expression's own step.
It collects the operands that were complete by then. There is just one such list when emission fails (`Expr.emit_eq_error_iff`,
`Expr.BreaksOff.unique`).

What is left in the buffer is the code of these operands, and nothing of the part that failed (`Expr.emit_interrupted`). So the buffer is
as it was if the expression fails at its outset or inside its first operand, and it is not in general
(`Expr.not_unchanged_of_error`).
-/

namespace Linkage

open Emit

/-- A field whose type has no values. Its instruction is written before that is found out. -/
def Fault.IsVoidField (fault : Fault) : Prop :=
  ∃ owner name, fault = .ofCode (.unsupported (.voidField owner name))

namespace Expr

/-! ## An expression and its operands -/

/-- The expressions whose values an expression takes from the stack, in the order in which they are written. -/
def operands : Expr → List Expr
  | .field target _ _ _ _ => [target]
  | .staticCall _ _ _ _ _ args _ => args
  | .call target _ _ _ _ _ args _ => target :: args
  | _ => []

/-- What an expression does in front of its operands: a call is checked, a field finds its place in the pool. The answer is the step
that stands behind the operands. -/
def opening : Expr → Emit (Emit Unit)
  | .this type _ => pure (inCode (CodeBuffer.load type 0))
  | .localVar _ slot type _ => pure (inCode (CodeBuffer.load type slot))
  | .literal value _ => pure value.emit
  | .staticField owner name type _ => do
    let index ← inPool (Pool.addMember .field owner name type.descriptor)
    pure do
      write (·.emitOp2 Opcode.getstatic index)
      pushField owner name type
  | .field _ owner name type _ => do
    let index ← inPool (Pool.addMember .field owner name type.descriptor)
    pure do
      write (·.emitOp2 Opcode.getfield index)
      inCode (CodeBuffer.pop 1)
      pushField owner name type
  | .staticCall owner onInterface name params result args _ => do
    checkCall owner name params result args
    pure (invoke Opcode.invokestatic (.ofMethod onInterface) owner name params result)
  | .call _ owner onInterface name params result args _ => do
    checkCall owner name params result args
    pure (invoke (if onInterface then Opcode.invokeinterface else Opcode.invokevirtual) (.ofMethod onInterface) owner name params result)

/-- Every expression is written in three parts: its opening, its operands in order, and the step that the opening answered. -/
theorem emit_eq (x : Expr) : x.emit = x.opening >>= fun close => emitAll x.operands >>= fun _ => close := by
  cases x <;> simp only [emit, opening, operands, emitAll, bind_assoc, pure_bind]

/-- Operands are smaller than what they are operands of. -/
theorem sizeOf_lt_of_mem_operands {x y : Expr} (h : y ∈ x.operands) : sizeOf y < sizeOf x := by
  cases x with
  | field target owner name type s =>
    rw [List.mem_singleton.mp h, field.sizeOf_spec]
    omega
  | staticCall owner onInterface name params result args s =>
    have hargs : sizeOf y < sizeOf args := List.sizeOf_lt_of_mem h
    rw [staticCall.sizeOf_spec]
    omega
  | call target owner onInterface name params result args s =>
    rw [call.sizeOf_spec]
    rcases List.mem_cons.mp h with rfl | h
    · omega
    · have hargs := List.sizeOf_lt_of_mem h
      omega
  | _ => cases h

/-! ## The part that fails -/

variable {fault : Fault} {left : Emission}

/-- Emission of an expression fails, and `done` are the operands that were complete by then, at every level of the expression, down to
the part that fails. This part fails with `fault` and leaves `left`, either in its opening or, behind all its operands, when it is
closed; and each expression around it had been opened and had written the operands in front. -/
inductive BreaksOff (fault : Fault) (left : Emission) : Expr → Emission → List Expr → Prop where
  | opening {x : Expr} {e : Emission} (hopening : x.opening e = .error fault left) : BreaksOff fault left x e []
  | operand {x y : Expr} {before after done : List Expr} {e m n : Emission} {close : Emit Unit} (hopening : x.opening e = .ok close m)
      (hoperands : x.operands = before ++ y :: after) (hbefore : emitAll before m = .ok () n) (hy : BreaksOff fault left y n done) :
      BreaksOff fault left x e (before ++ done)
  | closing {x : Expr} {e m n : Emission} {close : Emit Unit} (hopening : x.opening e = .ok close m)
      (hoperands : emitAll x.operands m = .ok () n) (hclose : close n = .error fault left) : BreaksOff fault left x e x.operands

/-- Expressions in a row are written when the first is, and the others are from there. -/
theorem emitAll_cons_eq_ok_iff {x : Expr} {xs : List Expr} {e t : Emission} :
    emitAll (x :: xs) e = .ok () t ↔ ∃ m, x.emit e = .ok () m ∧ emitAll xs m = .ok () t := by
  rw [emitAll, bind_run_eq_ok_iff]
  exact ⟨fun ⟨_, m, h⟩ => ⟨m, h⟩, fun ⟨m, h⟩ => ⟨(), m, h⟩⟩

/-- Expressions in a row fail at the first one that fails, behind those that were written. -/
theorem emitAll_eq_error_iff {xs : List Expr} {e : Emission} : emitAll xs e = .error fault left ↔
    ∃ before y after m, xs = before ++ y :: after ∧ emitAll before e = .ok () m ∧ y.emit m = .error fault left := by
  induction xs generalizing e with
  | nil =>
    constructor
    · intro h
      rw [emitAll] at h
      cases h
    · intro h
      obtain ⟨before, y, after, m, hsplit, -⟩ := h
      cases before <;> cases hsplit
  | cons x xs ih =>
    rw [emitAll, bind_run_eq_error_iff]
    constructor
    · intro h
      rcases h with hx | ⟨_, m, hx, hxs⟩
      · exact ⟨[], x, xs, e, rfl, by rw [emitAll]; rfl, hx⟩
      · obtain ⟨before, y, after, n, rfl, hbefore, hy⟩ := ih.mp hxs
        exact ⟨x :: before, y, after, n, rfl, emitAll_cons_eq_ok_iff.mpr ⟨m, hx, hbefore⟩, hy⟩
    · intro h
      obtain ⟨before, y, after, n, hsplit, hbefore, hy⟩ := h
      cases before with
      | nil =>
        rw [emitAll] at hbefore
        cases hbefore
        cases hsplit
        exact .inl hy
      | cons z zs =>
        cases hsplit
        obtain ⟨m, hz, hzs⟩ := emitAll_cons_eq_ok_iff.mp hbefore
        exact .inr ⟨(), m, hz, ih.mpr ⟨zs, y, after, n, rfl, hzs, hy⟩⟩

/-- Emission that fails breaks off somewhere. -/
theorem exists_breaksOff (x : Expr) {e : Emission} (h : x.emit e = .error fault left) : ∃ done, x.BreaksOff fault left e done := by
  rw [emit_eq, bind_run_eq_error_iff] at h
  rcases h with hopening | ⟨close, m, hopening, h⟩
  · exact ⟨[], .opening hopening⟩
  rw [bind_run_eq_error_iff] at h
  rcases h with hoperands | ⟨_, n, hoperands, hclose⟩
  · obtain ⟨before, y, after, n, hsplit, hbefore, hy⟩ := emitAll_eq_error_iff.mp hoperands
    -- the way on is inside the operand that failed, which is smaller
    have hsmaller : sizeOf y < sizeOf x := sizeOf_lt_of_mem_operands (by simp [hsplit])
    obtain ⟨done, hdone⟩ := exists_breaksOff y hy
    exact ⟨before ++ done, .operand hopening hsplit hbefore hdone⟩
  · exact ⟨x.operands, .closing hopening hoperands hclose⟩
termination_by sizeOf x

/-- What breaks off fails, with the fault of the part that fails. -/
theorem BreaksOff.emit_eq_error {x : Expr} {e : Emission} {done : List Expr} (h : x.BreaksOff fault left e done) :
    x.emit e = .error fault left := by
  induction h with
  | opening hopening =>
    rw [emit_eq, bind_run_eq_error_iff]
    exact .inl hopening
  | operand hopening hoperands hbefore _ ih =>
    rw [emit_eq, bind_run_eq_error_iff]
    refine .inr ⟨_, _, hopening, ?_⟩
    rw [bind_run_eq_error_iff]
    exact .inl (emitAll_eq_error_iff.mpr ⟨_, _, _, _, hoperands, hbefore, ih⟩)
  | closing hopening hoperands hclose =>
    rw [emit_eq, bind_run_eq_error_iff]
    refine .inr ⟨_, _, hopening, ?_⟩
    rw [bind_run_eq_error_iff]
    exact .inr ⟨(), _, hoperands, hclose⟩

/-- Emission fails with the fault, and leaves that emission, just when it breaks off so. -/
theorem emit_eq_error_iff {x : Expr} {e : Emission} : x.emit e = .error fault left ↔ ∃ done, x.BreaksOff fault left e done :=
  ⟨exists_breaksOff x, fun ⟨_, h⟩ => h.emit_eq_error⟩

/-- Where expressions in a row fail, it is settled which of them fails, and behind which. -/
theorem eq_of_first_failing {before before' after after' : List Expr} {y y' : Expr} {e m m' : Emission}
    (hsplit : before ++ y :: after = before' ++ y' :: after') (hbefore : emitAll before e = .ok () m)
    (hy : y.emit m = .error fault left) (hbefore' : emitAll before' e = .ok () m') (hy' : y'.emit m' = .error fault left) :
    before = before' ∧ y = y' ∧ m = m' := by
  induction before generalizing before' e with
  | nil =>
    rw [emitAll] at hbefore
    cases hbefore
    cases before' with
    | nil =>
      rw [emitAll] at hbefore'
      cases hbefore'
      exact ⟨rfl, (List.cons.inj hsplit).1, rfl⟩
    | cons x xs =>
      cases hsplit
      obtain ⟨n, hx, -⟩ := emitAll_cons_eq_ok_iff.mp hbefore'
      rw [hy] at hx
      cases hx
  | cons x xs ih =>
    obtain ⟨n, hx, hxs⟩ := emitAll_cons_eq_ok_iff.mp hbefore
    cases before' with
    | nil =>
      rw [emitAll] at hbefore'
      cases hbefore'
      cases hsplit
      rw [hy'] at hx
      cases hx
    | cons x' xs' =>
      obtain ⟨rfl, hrest⟩ := List.cons.inj hsplit
      obtain ⟨n', hx', hxs'⟩ := emitAll_cons_eq_ok_iff.mp hbefore'
      rw [hx] at hx'
      cases hx'
      obtain ⟨rfl, hsame⟩ := ih hrest hxs hxs'
      exact ⟨rfl, hsame⟩

/-- There is one way only in which emission of an expression breaks off. -/
theorem BreaksOff.unique {x : Expr} {e : Emission} {done other : List Expr} (h : x.BreaksOff fault left e done)
    (hother : x.BreaksOff fault left e other) : done = other := by
  -- both ways follow the same run, so they part in no place: not at the opening, not in the operand that fails first, not in the end
  induction h generalizing other with
  | opening hopening =>
    cases hother with
    | opening _ => rfl
    | operand hopening' _ _ _ =>
      cases hopening.symm.trans hopening'
    | closing hopening' _ _ =>
      cases hopening.symm.trans hopening'
  | operand hopening hoperands hbefore hy ih =>
    cases hother with
    | opening hopening' =>
      cases hopening.symm.trans hopening'
    | operand hopening' hoperands' hbefore' hy' =>
      cases hopening.symm.trans hopening'
      obtain ⟨rfl, rfl, rfl⟩ := eq_of_first_failing (hoperands.symm.trans hoperands') hbefore hy.emit_eq_error hbefore' hy'.emit_eq_error
      rw [ih hy']
    | closing hopening' hall _ =>
      cases hopening.symm.trans hopening'
      have hfails := emitAll_eq_error_iff.mpr ⟨_, _, _, _, hoperands, hbefore, hy.emit_eq_error⟩
      cases hall.symm.trans hfails
  | closing hopening hall _ =>
    cases hother with
    | opening hopening' =>
      cases hopening.symm.trans hopening'
    | operand hopening' hoperands hbefore hy =>
      cases hopening.symm.trans hopening'
      have hfails := emitAll_eq_error_iff.mpr ⟨_, _, _, _, hoperands, hbefore, hy.emit_eq_error⟩
      cases hall.symm.trans hfails
    | closing _ _ _ => rfl

/-! ## Operands that were written -/

/-- Between two emissions the expressions were written one after the other, each completely, and nothing else. The pool may have
gained more than they asked for. -/
inductive Written : List Expr → Emission → Emission → Prop where
  | nil {e t : Emission} (hpool : e.pool.Extends t.pool) (hcode : t.code = e.code) : Written [] e t
  | cons {x : Expr} {xs : List Expr} {e m t : Emission} {p : Pool} (hpool : e.pool.Extends p) (hx : x.emit ⟨p, e.code⟩ = .ok () m)
      (hxs : Written xs m t) : Written (x :: xs) e t

namespace Written

variable {xs ys : List Expr} {e m t : Emission}

theorem refl (e : Emission) : Written [] e e :=
  nil (.refl _) rfl

/-- The pool may have grown before. -/
theorem of_extends (hpool : e.pool.Extends m.pool) (hcode : m.code = e.code) (h : Written xs m t) : Written xs e t := by
  cases h with
  | nil hp hc => exact nil (hpool.trans hp) (hc.trans hcode)
  | cons hp hx hxs => exact cons (hpool.trans hp) (hcode ▸ hx) hxs

theorem append (h : Written xs e m) (h' : Written ys m t) : Written (xs ++ ys) e t := by
  induction h with
  | nil hpool hcode => exact of_extends hpool hcode h'
  | cons hpool hx _ ih => exact cons hpool hx (ih h')

theorem pool (h : Written xs e t) : e.pool.Extends t.pool := by
  induction h with
  | nil hpool _ => exact hpool
  | @cons x _ _ _ _ _ hpool hx _ ih => exact hpool.trans ((((x.settles_emit _).of_ok hx).1).trans ih)

/-- Each expression leaves one entry on the tracked stack, the last one on top. -/
theorem stack (h : Written xs e t) : ∃ entries, entries.map some = (xs.map stackType?).reverse ∧
    t.code.stack = entries ++ e.code.stack := by
  induction h with
  | nil _ hcode => exact ⟨[], rfl, by rw [hcode]; rfl⟩
  | @cons x xs _ _ _ _ _ hx _ ih =>
    obtain ⟨entry, hentry, hstack⟩ := (x.pushes_emit _).of_ok hx
    obtain ⟨entries, hentries, hrest⟩ := ih
    refine ⟨entries ++ [entry], ?_, ?_⟩
    · rw [List.map_append, hentries, List.map_cons (l := xs), List.reverse_cons, hentry]
      rfl
    · rw [hrest, hstack, List.append_assoc]
      rfl

theorem base (h : Written xs e t) : t.code.base = e.code.base := by
  induction h with
  | nil _ hcode => rw [hcode]
  | @cons x _ e _ _ p _ hx _ ih => exact ih.trans ((x.keepsBase_emit ⟨p, e.code⟩).of_ok hx)

/-- The bytes gained are code for the expressions, read with the pool behind. -/
theorem appends (h : Written xs e t) (ht : t.pool.Fits) : ∃ is, e.code.Appends t.code is ∧ HaveCode t.pool xs is := by
  induction h with
  | nil _ hcode =>
    refine ⟨[], ?_, ?_⟩
    · rw [hcode]
      exact .refl _
    · rw [HaveCode]
  | @cons x xs e m t p hpool hx hxs ih =>
    obtain ⟨js, hjs, hrest⟩ := ih ht
    have hextends := ((x.settles_emit _).of_ok hx).1
    have hfits : p.Fits := by
      have hlength := (hextends.trans hxs.pool).length_le
      unfold Pool.Fits at ht ⊢
      simp only [Array.length_toList] at hlength
      omega
    have hadds : Adds (fun _ _ => True) 0 x.emit ⟨p, e.code⟩ _ := x.adds_emit hfits
    obtain ⟨-, is, his, hcode⟩ := hadds.of_ok hx
    refine ⟨is ++ js, his.trans hjs, ?_⟩
    rw [HaveCode]
    exact ⟨is, js, rfl, hcode.mono hxs.pool, hrest⟩

end Written

end Expr

/-! ## Parts that write nothing when they fail -/

namespace Emit

/-- A step on the pool extends it, and touches no code. -/
theorem ensures_inPool_extends {α : Type} {step : Pool.Step α} (h : Pool.Settles step) (e : Emission) :
    Ensures (inPool step) e (fun _ t => e.pool.Extends t.pool ∧ t.code = e.code)
      fun _ t => e.pool.Extends t.pool ∧ t.code = e.code := by
  rw [inPool, ensures_focus]
  exact Ensures.mono (h e.pool) (fun _ _ ht => ⟨ht.1, rfl⟩) fun _ _ ht => ⟨ht, rfl⟩

/-- The check of a call writes nothing. -/
theorem ensures_checkCall_unchanged (owner name : String) (params : List JType) (result : JType) (args : List Expr) (e : Emission) :
    Ensures (checkCall owner name params result args) e (fun _ t => t = e) fun _ t => t = e := by
  unfold checkCall
  split
  · exact rfl
  · split
    · exact rfl
    · exact rfl

/-- Unless the tracked stack is too short, which does not occur, or a field has no values, which is found out too late, the step adds no
code when it fails. -/
def FailsUnwritten (step : Emit Unit) : Prop :=
  ∀ e, Ensures step e (fun _ _ => True) fun fault t =>
    fault = .ofCode .stackUnderflow ∨ fault.IsVoidField ∨ e.pool.Extends t.pool ∧ t.code = e.code

/-- What only writes does not fail. -/
theorem failsUnwritten_write (f : CodeBuffer → CodeBuffer) : FailsUnwritten (write f) :=
  fun _ => ensures_write _ trivial

/-- A step on the pool may come first, if what follows fails for want of entries only. -/
theorem failsUnwritten_inPool_bind {α : Type} {step : Pool.Step α} {next : α → Emit Unit} (h : Pool.Settles step)
    (hnext : ∀ a e, Ensures (next a) e (fun _ _ => True) fun fault _ => fault = .ofCode .stackUnderflow) :
    FailsUnwritten (inPool step >>= next) := by
  intro e
  rw [ensures_bind]
  refine (ensures_inPool_extends h e).mono ?_ (fun _ _ ht => .inr (.inr ht))
  exact fun a m _ => (hnext a m).mono (fun _ _ h => h) fun _ _ h => .inl h

/-- A load that cannot be written leaves the buffer as it is. -/
theorem failsUnwritten_load (type : JType) (slot : Nat) : FailsUnwritten (inCode (CodeBuffer.load type slot)) := by
  intro e
  rw [inCode, ensures_focus]
  refine (CodeBuffer.ensures_load_or_unchanged type slot e.code).mono (fun _ _ _ => trivial) ?_
  intro _ _ h
  exact .inr (.inr ⟨.refl _, h.2⟩)

/-- A call whose method finds no place in the pool writes nothing. -/
theorem failsUnwritten_invoke (call : CallKind) (kind : MemberKind) (owner name : String) (params : List JType) (result : JType) :
    FailsUnwritten (invoke call.opcode kind owner name params result) := by
  refine failsUnwritten_inPool_bind (Pool.settles_addMember _ _ _ _) fun i m => ?_
  rw [inCode, ensures_focus]
  exact (CodeBuffer.ensures_invoke call i params result m.code).mono (fun _ _ _ => trivial) fun _ _ h => congrArg Fault.ofCode h.1

/-- A field's value cannot be pushed only if the field has none. -/
theorem ensures_pushField_voidField (owner name : String) (type : JType) (e : Emission) :
    Ensures (pushField owner name type) e (fun _ _ => True) fun fault _ => fault.IsVoidField := by
  unfold pushField
  split
  · exact ensures_write _ trivial
  · exact ⟨owner, name, rfl⟩

end Emit

/-- A literal that finds no place in the pool writes nothing. -/
theorem Literal.failsUnwritten_emit (l : Literal) : FailsUnwritten l.emit := by
  cases l with
  | integer v =>
    unfold Literal.emit
    dsimp only
    split
    · exact failsUnwritten_write _
    · split
      · exact failsUnwritten_write _
      · split
        · exact failsUnwritten_write _
        · exact failsUnwritten_inPool_bind (Pool.settles_add _) fun _ _ => ensures_write _ trivial
  | text s => exact failsUnwritten_inPool_bind (Pool.settles_addString s) fun _ _ => ensures_write _ trivial
  | null => exact failsUnwritten_write _

namespace Expr

/-- The opening of an expression adds no code, and the step that it answers adds none when it fails. -/
theorem ensures_opening (x : Expr) (e : Emission) : Ensures x.opening e
    (fun close t => FailsUnwritten close ∧ e.pool.Extends t.pool ∧ t.code = e.code)
    fun _ t => e.pool.Extends t.pool ∧ t.code = e.code := by
  cases x with
  | this type s => exact ⟨failsUnwritten_load type 0, .refl _, rfl⟩
  | localVar name slot type s => exact ⟨failsUnwritten_load type slot, .refl _, rfl⟩
  | literal value s => exact ⟨value.failsUnwritten_emit, .refl _, rfl⟩
  | staticField owner name type s =>
    rw [opening, ensures_bind]
    refine (ensures_inPool_extends (Pool.settles_addMember _ _ _ _) e).mono ?_ (fun _ _ h => h)
    intro i m hm
    refine ⟨fun n => ?_, hm⟩
    rw [ensures_bind]
    refine ensures_write _ ?_
    exact (ensures_pushField_voidField owner name type _).mono (fun _ _ h => h) fun _ _ h => .inr (.inl h)
  | field target owner name type s =>
    rw [opening, ensures_bind]
    refine (ensures_inPool_extends (Pool.settles_addMember _ _ _ _) e).mono ?_ (fun _ _ h => h)
    intro i m hm
    refine ⟨fun n => ?_, hm⟩
    rw [ensures_bind]
    refine ensures_write _ ?_
    rw [ensures_bind, inCode, ensures_focus]
    refine (CodeBuffer.ensures_pop 1 _).mono ?_ (fun _ _ h => .inl (congrArg Fault.ofCode h.1))
    intro _ c _
    exact (ensures_pushField_voidField owner name type _).mono (fun _ _ h => h) fun _ _ h => .inr (.inl h)
  | staticCall owner onInterface name params result args s =>
    rw [opening, ensures_bind]
    refine (ensures_checkCall_unchanged owner name params result args e).mono ?_ (fun _ _ h => ⟨h ▸ .refl _, h ▸ rfl⟩)
    intro _ m hm
    exact ⟨failsUnwritten_invoke .onClass _ _ _ _ _, hm ▸ .refl _, hm ▸ rfl⟩
  | call target owner onInterface name params result args s =>
    rw [opening, CallKind.opcode_ofTarget, ensures_bind]
    refine (ensures_checkCall_unchanged owner name params result args e).mono ?_ (fun _ _ h => ⟨h ▸ .refl _, h ▸ rfl⟩)
    intro _ m hm
    exact ⟨failsUnwritten_invoke (.ofTarget onInterface) _ _ _ _ _, hm ▸ .refl _, hm ▸ rfl⟩

/-- Expressions in a row that do not fail were written. -/
theorem written_of_emitAll {xs : List Expr} {e t : Emission} (h : emitAll xs e = .ok () t) : Written xs e t := by
  induction xs generalizing e with
  | nil =>
    rw [emitAll] at h
    cases h
    exact .refl _
  | cons x xs ih =>
    obtain ⟨m, hx, hxs⟩ := emitAll_cons_eq_ok_iff.mp h
    exact .cons (.refl _) hx (ih hxs)

/-- Where emission breaks off, the complete operands were written, and nothing else. -/
theorem BreaksOff.written {x : Expr} {e : Emission} {done : List Expr} (h : x.BreaksOff fault left e done)
    (hunderflow : fault ≠ .ofCode .stackUnderflow) (hfield : ¬ fault.IsVoidField) : Written done e left := by
  induction h with
  | @opening x e hopening =>
    obtain ⟨hpool, hcode⟩ := (x.ensures_opening e).of_error hopening
    exact .nil hpool hcode
  | @operand x y before after done e m n close hopening _ hbefore _ ih =>
    obtain ⟨-, hpool, hcode⟩ := (x.ensures_opening e).of_ok hopening
    exact .of_extends hpool hcode ((written_of_emitAll hbefore).append ih)
  | @closing x e m n close hopening hoperands hclose =>
    obtain ⟨hunwritten, hpool, hcode⟩ := (x.ensures_opening e).of_ok hopening
    obtain ⟨hextends, hsame⟩ := (((hunwritten n).of_error hclose).resolve_left hunderflow).resolve_left hfield
    have hall := (written_of_emitAll hoperands).append (.nil hextends hsame)
    rw [List.append_nil] at hall
    exact .of_extends hpool hcode hall

/-! ## What is left in the buffer -/

/-- When emission of an expression fails, but not for a field without values, it breaks off in one way, and the buffer is as it was when
the last operand in front of the part that failed had been written, and as it was at the start if there was none. The code of these
operands follows the bytes that were there; each has one entry of its type on the tracked stack above the entries that were there, and the
depth has grown by the slots of these. -/
theorem emit_interrupted (x : Expr) (start : Emission) (hfits : start.pool.Fits) (fault : Fault) (left : Emission)
    (hrun : x.emit start = .error fault left) (hfault : ¬ fault.IsVoidField) :
    ∃ done, (∀ other, x.BreaksOff fault left start other ↔ other = done) ∧ Written done start left ∧
      (done = [] → left.code = start.code) ∧
      (∃ code is, left.code.bytes.toList = start.code.bytes.toList ++ code ∧ Instruction.decodeAll code = some is ∧
        HaveCode left.pool done is) ∧
      ∃ entries, entries.map some = (done.map stackType?).reverse ∧ left.code.stack = entries ++ start.code.stack ∧
        left.code.depth = start.code.depth + StackType.depth entries := by
  have hunderflow := (x.pushes_emit start).of_error hrun
  obtain ⟨done, hbreaks⟩ := emit_eq_error_iff.mp hrun
  have hwritten := hbreaks.written hunderflow hfault
  have hgrows : GrowsPool (fun _ _ => True) 0 x.emit := x.growsPool_emit
  have hleft : left.pool.Fits := (Ensures.of_error (hgrows start hfits) hrun).fits hfits
  obtain ⟨is, ⟨code, hbytes, hdecodes⟩, hcode⟩ := hwritten.appends hleft
  obtain ⟨entries, hentries, hstack⟩ := hwritten.stack
  refine ⟨done, fun other => ⟨fun h => h.unique hbreaks, fun h => h ▸ hbreaks⟩, hwritten, ?_,
    ⟨code, is, hbytes, hdecodes.decodeAll, hcode⟩, entries, hentries, hstack, ?_⟩
  · intro hnone
    subst hnone
    cases hwritten with
    | nil _ hcode => exact hcode
  · have hbase := hwritten.base
    unfold CodeBuffer.base at hbase
    rw [hstack, StackType.depth_append] at hbase
    grind

/-- `T.f(3, x)`, where `x` is in a slot beyond the reach of a load. -/
def sampleInterrupted : Expr :=
  .staticCall "p/T" false "f" [.int, .int] .int [.literal (.integer 3) .unknown, .localVar "x" 300 .int .unknown] .unknown

/-- The first argument was written when the second one fails. -/
def sampleLeft : Emission :=
  ⟨{}, { bytes := #[6], stack := [.int], depth := 1, maxDepth := 1 }⟩

/-- The slot of the second argument is out of reach. -/
theorem emit_sampleInterrupted : sampleInterrupted.emit ⟨{}, {}⟩ = .error (.ofCode (.tooManyLocals 300)) sampleLeft :=
  rfl

theorem emit_interrupted_sample :
    sampleInterrupted.emit ⟨{}, {}⟩ = .error (.ofCode (.tooManyLocals 300)) sampleLeft ∧
      ¬ (Fault.ofCode (.tooManyLocals 300)).IsVoidField ∧
      ∃ done, sampleInterrupted.BreaksOff (.ofCode (.tooManyLocals 300)) sampleLeft ⟨{}, {}⟩ done ∧ Written done ⟨{}, {}⟩ sampleLeft ∧
        done.length = 1 := by
  have hfault : ¬ (Fault.ofCode (.tooManyLocals 300)).IsVoidField := by
    intro h
    obtain ⟨owner, name, h⟩ := h
    cases h
  obtain ⟨done, hbreaks, hwritten, -, -, entries, hentries, hstack, -⟩ :=
    emit_interrupted sampleInterrupted ⟨{}, {}⟩ Pool.fits_empty _ _ emit_sampleInterrupted hfault
  refine ⟨emit_sampleInterrupted, hfault, done, (hbreaks done).mpr rfl, hwritten, ?_⟩
  have hlength := congrArg List.length hentries
  rw [List.length_map, List.length_reverse, List.length_map] at hlength
  rw [← hlength]
  have hone := congrArg List.length hstack
  simpa [sampleLeft] using hone.symm

/-- The buffer is not as it was whenever emission fails: what was complete stays. -/
theorem not_unchanged_of_error :
    ¬ ∀ (x : Expr) (start : Emission) (fault : Fault) (left : Emission), x.emit start = .error fault left →
      left.code.bytes = start.code.bytes ∧ left.code.stack = start.code.stack ∧ left.code.depth = start.code.depth := by
  intro h
  obtain ⟨hbytes, -, -⟩ := h _ _ _ _ emit_sampleInterrupted
  exact absurd hbytes (by decide)

end Expr

end Linkage
