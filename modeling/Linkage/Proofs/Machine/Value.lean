import Linkage.Expr
import Linkage.Proofs.Descriptor
import Linkage.Proofs.Machine.Instruction
import Linkage.Proofs.Pool.View

/-!
# Values and effects

A machine that runs straight-line code on a stack of values. What fields hold and methods answer is left open: reading a field and
calling a method are effects, which go into a trace, and a world answers each in view of the trace so far. The value of a receiver
expression is defined over the same worlds, by evaluating it from left to right.
-/

namespace Linkage

/-- What code does outside of its method: it reads a field, of an object or not, or calls a method. -/
inductive Action where
  | read (ofObject : Bool)
  | call (kind : CallKind)
  deriving DecidableEq

/-- An action on a member with its operands: the object that it is done on first, then the arguments in order. -/
structure Effect (V : Type) where
  action : Action
  kind : MemberKind
  owner : String
  name : String
  descriptor : String
  operands : List V
  deriving DecidableEq

/-- What surrounds a method: the values in its locals, the values of constants, and the answer to each effect. -/
structure World (V : Type) where
  locals : SlotKind → Nat → V
  ofInt : Int32 → V
  ofText : String → V
  null : V
  respond : List (Effect V) → Effect V → V

variable {V : Type}

namespace World

/-- The value of a local of a type. -/
def ofLocal (w : World V) (type : JType) (slot : Nat) : V :=
  match SlotKind.ofType? type with
  | some kind => w.locals kind slot
  | none => w.null

/-- The value of a literal. -/
def ofLiteral (w : World V) : Literal → V
  | .integer v => w.ofInt v
  | .text s => w.ofText s
  | .null => w.null

/-- The answer to an effect, and the trace with the effect in it. -/
def perform (w : World V) (trace : List (Effect V)) (e : Effect V) : V × List (Effect V) :=
  (w.respond trace e, trace ++ [e])

end World

mutual

/-- The value of an expression and the trace behind it: the target is evaluated first, then the arguments in order. -/
def Expr.eval (w : World V) : Expr → List (Effect V) → V × List (Effect V)
  | .this type _, trace => (w.ofLocal type 0, trace)
  | .localVar _ slot type _, trace => (w.ofLocal type slot, trace)
  | .literal value _, trace => (w.ofLiteral value, trace)
  | .staticField owner name type _, trace => w.perform trace ⟨.read false, .field, owner, name, type.descriptor, []⟩
  | .field target owner name type _, trace =>
    let (object, trace) := target.eval w trace
    w.perform trace ⟨.read true, .field, owner, name, type.descriptor, [object]⟩
  | .staticCall owner onInterface name params result args _, trace =>
    let (values, trace) := Expr.evalAll w args trace
    w.perform trace ⟨.call .onClass, .ofMethod onInterface, owner, name, methodDescriptor params result, values⟩
  | .call target owner onInterface name params result args _, trace =>
    let (object, trace) := target.eval w trace
    let (values, trace) := Expr.evalAll w args trace
    w.perform trace ⟨.call (.ofTarget onInterface), .ofMethod onInterface, owner, name, methodDescriptor params result,
      object :: values⟩

/-- The values of expressions in order, and the trace behind the last. -/
def Expr.evalAll (w : World V) : List Expr → List (Effect V) → List V × List (Effect V)
  | [], trace => ([], trace)
  | e :: es, trace =>
    let (value, trace) := e.eval w trace
    let (values, trace) := Expr.evalAll w es trace
    (value :: values, trace)

end

/-- A machine between two instructions: the stack, top first, and the effects so far. -/
structure Machine (V : Type) where
  stack : List V
  trace : List (Effect V)

namespace Machine

def push (m : Machine V) (v : V) : Machine V :=
  { m with stack := v :: m.stack }

/-- Performs an effect on the values on top, the last operand topmost, and pushes the answer if the effect has one. -/
def perform (w : World V) (m : Machine V) (operands : Nat) (answers : Bool) (effect : List V → Effect V) : Option (Machine V) :=
  if m.stack.length < operands then none
  else
    let (answer, trace) := w.perform m.trace (effect (m.stack.take operands).reverse)
    let rest := m.stack.drop operands
    some ⟨if answers then answer :: rest else rest, trace⟩

/-- An effect takes the operands from the stack, and leaves what is below them. -/
theorem perform_eq_some {w : World V} {m : Machine V} {n : Nat} (operands rest : List V)
    (hstack : m.stack = operands.reverse ++ rest) (hn : operands.length = n) (effect : List V → Effect V) :
    m.perform w n true effect =
      some ⟨(w.perform m.trace (effect operands)).1 :: rest, (w.perform m.trace (effect operands)).2⟩ := by
  have hlength : ¬m.stack.length < n := by
    simp only [hstack, List.length_append, List.length_reverse, hn]
    omega
  have htake : m.stack.take n = operands.reverse := by
    rw [hstack, List.take_left' (by rw [List.length_reverse, hn])]
  have hdrop : m.stack.drop n = rest := by
    rw [hstack, List.drop_left' (by rw [List.length_reverse, hn])]
  simp [perform, hlength, htake, hdrop]

end Machine

namespace Instruction

/-- Executes an instruction with the constants of a pool. The number of arguments of a call comes from its descriptor. There is no step
for what receivers do not need. -/
def exec? (w : World V) (p : Pool) (m : Machine V) : Instruction → Option (Machine V)
  | pushNull => some (m.push w.null)
  | pushInt v => some (m.push (w.ofInt v))
  | pushConstant index =>
    match p.get? index with
    | some (.integer v) => some (m.push (w.ofInt v))
    | some (.string text) => (p.utf8? text).map fun s => m.push (w.ofText s)
    | _ => none
  | load kind slot => some (m.push (w.locals kind slot))
  | getstatic index =>
    match p.kindAndMember? index with
    | some (.field, owner, name, descriptor) => m.perform w 0 true fun operands => ⟨.read false, .field, owner, name, descriptor, operands⟩
    | _ => none
  | getfield index =>
    match p.kindAndMember? index with
    | some (.field, owner, name, descriptor) => m.perform w 1 true fun operands => ⟨.read true, .field, owner, name, descriptor, operands⟩
    | _ => none
  | call kind index => do
    let (member, owner, name, descriptor) ← p.kindAndMember? index
    let (params, result) ← JType.readMethod? descriptor
    if !kind.accepts member then none
    else m.perform w (params.length + kind.targets) (result ≠ .void) fun operands =>
      ⟨.call kind, member, owner, name, descriptor, operands⟩
  | _ => none

/-- Executes instructions in order. -/
def execAll? (w : World V) (p : Pool) : List Instruction → Machine V → Option (Machine V)
  | [], m => some m
  | i :: is, m => (i.exec? w p m).bind (execAll? w p is)

theorem execAll?_append (w : World V) (p : Pool) (is js : List Instruction) (m : Machine V) :
    execAll? w p (is ++ js) m = (execAll? w p is m).bind (execAll? w p js) := by
  induction is generalizing m with
  | nil => rfl
  | cons i is ih =>
    rw [List.cons_append, execAll?, execAll?, Option.bind_assoc]
    congr 1
    funext n
    exact ih n

/-- A call takes as many arguments as its descriptor names, and the object it is made on. -/
theorem exec?_call {w : World V} {p : Pool} {m : Machine V} {kind : CallKind} {index : UInt16} {member : MemberKind}
    {owner name : String} {params : List JType} {result : JType} (operands rest : List V)
    (hmember : p.kindAndMember? index = some (member, owner, name, methodDescriptor params result))
    (hparams : ∀ t ∈ params, t.Plain) (hresult : result.Plain) (hvoid : result ≠ .void) (haccepts : kind.accepts member = true)
    (hstack : m.stack = operands.reverse ++ rest) (hcount : operands.length = params.length + kind.targets) :
    (call kind index).exec? w p m =
      let e : Effect V := ⟨.call kind, member, owner, name, methodDescriptor params result, operands⟩
      some ⟨(w.perform m.trace e).1 :: rest, (w.perform m.trace e).2⟩ := by
  have hanswers : result.untag ≠ .void := by
    cases result <;> simp_all [JType.untag]
  have hperform := Machine.perform_eq_some (w := w) operands rest hstack hcount fun operands =>
    ⟨.call kind, member, owner, name, methodDescriptor params result, operands⟩
  simp only [exec?, hmember, JType.readMethod?_methodDescriptor hparams hresult, haccepts, Option.bind_eq_bind, Option.bind_some,
    List.length_map, Bool.not_true, Bool.false_eq_true, if_false, hanswers, ne_eq, not_false_eq_true, decide_true, hperform]

/-- Code that ends in one more instruction. -/
theorem execAll?_concat (w : World V) (p : Pool) (is : List Instruction) (i : Instruction) (m : Machine V) :
    execAll? w p (is ++ [i]) m = (execAll? w p is m).bind (i.exec? w p ·) := by
  rw [execAll?_append]
  congr 1
  funext n
  simp [execAll?]

end Instruction

end Linkage
