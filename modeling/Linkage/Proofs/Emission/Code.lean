import Linkage.Proofs.Machine.Value

/-!
# Code for receivers

Between an expression and the bytes written for it stands a list of instructions. `Expr.HasCode` says which instructions are code for
an expression, read in a pool. Code for an expression runs to its value, which is proved by induction on the expression.
-/

namespace Linkage

/-! ## Instructions for an expression -/

/-- The instructions push a literal, read in the pool. -/
def Literal.HasCode (p : Pool) : Literal → List Instruction → Prop
  | .integer v, is => is = [.pushInt v] ∨ ∃ i, is = [.pushConstant i] ∧ p.get? i = some (.integer v)
  | .text s, is => ∃ i t, is = [.pushConstant i] ∧ p.get? i = some (.string t) ∧ p.utf8? t = some s
  | .null, is => is = [.pushNull]

mutual

/-- The instructions push the value of an expression, read in the pool. -/
def Expr.HasCode (p : Pool) : Expr → List Instruction → Prop
  | .this type _, is => ∃ kind, SlotKind.ofType? type = some kind ∧ is = [.load kind 0]
  | .localVar _ slot type _, is => ∃ kind, SlotKind.ofType? type = some kind ∧ is = [.load kind slot]
  | .literal value _, is => value.HasCode p is
  | .staticField owner name type _, is =>
    ∃ i, is = [.getstatic i] ∧ p.kindAndMember? i = some (.field, owner, name, type.descriptor)
  | .field target owner name type _, is =>
    ∃ js i, is = js ++ [.getfield i] ∧ target.HasCode p js ∧ p.kindAndMember? i = some (.field, owner, name, type.descriptor)
  | .staticCall owner onInterface name params result args _, is =>
    ∃ js i, is = js ++ [.call .onClass i] ∧ Expr.HaveCode p args js ∧ args.length = params.length ∧ result ≠ .void ∧
      p.kindAndMember? i = some (.ofMethod onInterface, owner, name, methodDescriptor params result)
  | .call target owner onInterface name params result args _, is =>
    ∃ js ks i, is = js ++ ks ++ [.call (.ofTarget onInterface) i] ∧ target.HasCode p js ∧ Expr.HaveCode p args ks ∧
      args.length = params.length ∧ result ≠ .void ∧
      p.kindAndMember? i = some (.ofMethod onInterface, owner, name, methodDescriptor params result)

/-- The instructions push the values of expressions in order. -/
def Expr.HaveCode (p : Pool) : List Expr → List Instruction → Prop
  | [], is => is = []
  | e :: es, is => ∃ js ks, is = js ++ ks ∧ e.HasCode p js ∧ Expr.HaveCode p es ks

end

/-- Code for a literal stays its code while the pool is extended. -/
theorem Literal.HasCode.mono {p q : Pool} (h : p.Extends q) {l : Literal} {is : List Instruction} (hl : l.HasCode p is) :
    l.HasCode q is := by
  cases l with
  | integer v => exact hl.imp id fun ⟨i, hi, hv⟩ => ⟨i, hi, h.get? hv⟩
  | text s =>
    obtain ⟨i, t, hi, ht, hs⟩ := hl
    exact ⟨i, t, hi, h.get? ht, h.utf8? hs⟩
  | null => exact hl

mutual

/-- Code for an expression stays code for it while the pool is extended. -/
theorem Expr.HasCode.mono {p q : Pool} (h : p.Extends q) {e : Expr} {is : List Instruction} (he : e.HasCode p is) :
    e.HasCode q is := by
  cases e with
  | this type s => exact he
  | localVar name slot type s => exact he
  | literal value s =>
    rw [Expr.HasCode] at he ⊢
    exact he.mono h
  | staticField owner name type s =>
    obtain ⟨i, his, hi⟩ := he
    exact ⟨i, his, h.kindAndMember? hi⟩
  | field target owner name type s =>
    rw [Expr.HasCode] at he ⊢
    obtain ⟨js, i, his, ht, hi⟩ := he
    exact ⟨js, i, his, Expr.HasCode.mono h ht, h.kindAndMember? hi⟩
  | staticCall owner onInterface name params result args s =>
    rw [Expr.HasCode] at he ⊢
    obtain ⟨js, i, his, hargs, hcount, hresult, hi⟩ := he
    exact ⟨js, i, his, Expr.HaveCode.mono h hargs, hcount, hresult, h.kindAndMember? hi⟩
  | call target owner onInterface name params result args s =>
    rw [Expr.HasCode] at he ⊢
    obtain ⟨js, ks, i, his, ht, hargs, hcount, hresult, hi⟩ := he
    exact ⟨js, ks, i, his, Expr.HasCode.mono h ht, Expr.HaveCode.mono h hargs, hcount, hresult, h.kindAndMember? hi⟩

/-- Code for several expressions stays their code while the pool is extended. -/
theorem Expr.HaveCode.mono {p q : Pool} (h : p.Extends q) {es : List Expr} {is : List Instruction} (he : Expr.HaveCode p es is) :
    Expr.HaveCode q es is := by
  cases es with
  | nil => exact he
  | cons e es =>
    rw [Expr.HaveCode] at he ⊢
    obtain ⟨js, ks, his, hhead, htail⟩ := he
    exact ⟨js, ks, his, Expr.HasCode.mono h hhead, Expr.HaveCode.mono h htail⟩

end

/-! ## What the instructions do -/

mutual

/-- No name in the signature of a call in the expression holds a semicolon. -/
def Expr.Plain : Expr → Prop
  | .this _ _ => True
  | .localVar _ _ _ _ => True
  | .literal _ _ => True
  | .staticField _ _ _ _ => True
  | .field target _ _ _ _ => target.Plain
  | .staticCall _ _ _ params result args _ => (∀ t ∈ params, t.Plain) ∧ result.Plain ∧ Expr.AllPlain args
  | .call target _ _ _ params result args _ => target.Plain ∧ (∀ t ∈ params, t.Plain) ∧ result.Plain ∧ Expr.AllPlain args

def Expr.AllPlain : List Expr → Prop
  | [] => True
  | e :: es => e.Plain ∧ Expr.AllPlain es

end

open Instruction

/-- Code for a literal pushes its value. -/
theorem Literal.HasCode.execAll?_eq {V : Type} {p : Pool} {is : List Instruction} {l : Literal} (hl : l.HasCode p is) (w : World V)
    (m : Machine V) : execAll? w p is m = some (m.push (w.ofLiteral l)) := by
  cases l with
  | integer v =>
    rcases hl with rfl | ⟨i, rfl, hi⟩
    · rfl
    · simp [execAll?, exec?, hi, World.ofLiteral]
  | text s =>
    obtain ⟨i, t, rfl, ht, hs⟩ := hl
    simp [execAll?, exec?, ht, hs, World.ofLiteral]
  | null =>
    rw [Literal.HasCode] at hl
    rw [hl]
    rfl

mutual

/-- Code for an expression pushes the value of the expression and performs its effects. -/
theorem Expr.HasCode.execAll?_eq {V : Type} {p : Pool} {is : List Instruction} {e : Expr} (he : e.HasCode p is)
    (hplain : e.Plain) (w : World V) (m : Machine V) :
    execAll? w p is m = some ⟨(e.eval w m.trace).1 :: m.stack, (e.eval w m.trace).2⟩ := by
  cases e with
  | this type s =>
    obtain ⟨kind, hkind, rfl⟩ := he
    simp [execAll?, exec?, Expr.eval, World.ofLocal, hkind, Machine.push]
  | localVar name slot type s =>
    obtain ⟨kind, hkind, rfl⟩ := he
    simp [execAll?, exec?, Expr.eval, World.ofLocal, hkind, Machine.push]
  | literal value s =>
    rw [Expr.HasCode] at he
    rw [he.execAll?_eq]
    rfl
  | staticField owner name type s =>
    obtain ⟨i, rfl, hi⟩ := he
    have hperform := Machine.perform_eq_some (w := w) (m := m) (n := 0) [] m.stack rfl rfl fun operands =>
      ⟨.read false, .field, owner, name, type.descriptor, operands⟩
    simp [execAll?, exec?, hi, Expr.eval, hperform]
  | field target owner name type s =>
    rw [Expr.HasCode] at he
    obtain ⟨js, i, rfl, ht, hi⟩ := he
    have htarget := Expr.HasCode.execAll?_eq ht hplain w m
    have hperform := Machine.perform_eq_some (w := w) (m := ⟨(target.eval w m.trace).1 :: m.stack, (target.eval w m.trace).2⟩)
      (n := 1) [(target.eval w m.trace).1] m.stack rfl rfl fun operands =>
        ⟨.read true, .field, owner, name, type.descriptor, operands⟩
    rw [execAll?_concat, htarget, Option.bind_some]
    simp [exec?, hi, Expr.eval, hperform]
  | staticCall owner onInterface name params result args s =>
    rw [Expr.HasCode] at he
    rw [Expr.Plain] at hplain
    obtain ⟨js, i, rfl, hargs, hcount, hvoid, hi⟩ := he
    obtain ⟨hparams, hresult, hargsPlain⟩ := hplain
    obtain ⟨hrun, hlength⟩ := Expr.HaveCode.execAll?_eq hargs hargsPlain w m
    rw [execAll?_concat, hrun, Option.bind_some]
    exact exec?_call _ m.stack hi hparams hresult hvoid (by cases onInterface <;> rfl) rfl (hlength.trans hcount)
  | call target owner onInterface name params result args s =>
    rw [Expr.HasCode] at he
    rw [Expr.Plain] at hplain
    obtain ⟨js, ks, i, rfl, ht, hargs, hcount, hvoid, hi⟩ := he
    obtain ⟨htargetPlain, hparams, hresult, hargsPlain⟩ := hplain
    have htarget := Expr.HasCode.execAll?_eq ht htargetPlain w m
    obtain ⟨hrun, hlength⟩ := Expr.HaveCode.execAll?_eq hargs hargsPlain w
      ⟨(target.eval w m.trace).1 :: m.stack, (target.eval w m.trace).2⟩
    rw [execAll?_concat, execAll?_append, htarget, Option.bind_some, hrun, Option.bind_some]
    refine exec?_call _ m.stack hi hparams hresult hvoid (by cases onInterface <;> rfl) ?_ ?_
    · simp
    · cases onInterface <;> simp [CallKind.ofTarget, CallKind.targets, hlength, hcount]

/-- Code for expressions in a row pushes their values, the last on top. -/
theorem Expr.HaveCode.execAll?_eq {V : Type} {p : Pool} {is : List Instruction} {es : List Expr} (he : Expr.HaveCode p es is)
    (hplain : Expr.AllPlain es) (w : World V) (m : Machine V) :
    execAll? w p is m = some ⟨(Expr.evalAll w es m.trace).1.reverse ++ m.stack, (Expr.evalAll w es m.trace).2⟩ ∧
      (Expr.evalAll w es m.trace).1.length = es.length := by
  cases es with
  | nil =>
    rw [Expr.HaveCode] at he
    rw [he]
    exact ⟨rfl, rfl⟩
  | cons e es =>
    rw [Expr.HaveCode] at he
    rw [Expr.AllPlain] at hplain
    obtain ⟨js, ks, rfl, hhead, htail⟩ := he
    have h := Expr.HasCode.execAll?_eq hhead hplain.1 w m
    obtain ⟨hs, hlength⟩ := Expr.HaveCode.execAll?_eq htail hplain.2 w ⟨(e.eval w m.trace).1 :: m.stack, (e.eval w m.trace).2⟩
    rw [execAll?_append, h, Option.bind_some, hs]
    constructor
    · simp [Expr.evalAll]
    · simp [Expr.evalAll, hlength]

end

end Linkage
