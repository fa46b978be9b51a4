import Linkage.Emission.Basic
import Linkage.Expr

/-!
# Code of receiver expressions

The code of an expression pushes its value: first that of the target, then those of the arguments in order.
-/

namespace Linkage

open Emit

/-- Writes a literal. Small integers have instructions of their own; the others and texts come from the pool. -/
def Literal.emit : Literal → Emit Unit
  | .integer v => do
    let n := v.toInt
    if -1 ≤ n ∧ n ≤ 5 then write fun b => (b.emitOp (Opcode.iconst0 + v.toUInt32.toUInt8)).push .int
    else if -128 ≤ n ∧ n ≤ 127 then write fun b => (b.emitOp1 Opcode.bipush v.toUInt32.toUInt8).push .int
    else if -32768 ≤ n ∧ n ≤ 32767 then write fun b => (b.emitOp2 Opcode.sipush v.toUInt32.toUInt16).push .int
    else do
      let index ← inPool (Pool.addInteger v)
      write fun b => b.loadConstant index .int
  | .text s => do
    let index ← inPool (Pool.addString s)
    write fun b => b.loadConstant index (.object WellKnown.string)
  | .null => write fun b => (b.emitOp Opcode.aconstNull).push .null

/-- Pushes what is known of a field's value. -/
def Emit.pushField (owner name : String) (type : JType) : Emit Unit :=
  match StackType.ofType? type with
  | some entry => write fun b => b.push entry
  | none => throw (.ofCode (.unsupported (.voidField owner name)))

/-- Checks that a call has a value and an argument for every parameter. -/
def Emit.checkCall (owner name : String) (params : List JType) (result : JType) (args : List Expr) : Emit Unit :=
  if result = .void then throw (.ofCode (.unsupported (.voidCall owner name)))
  else if args.length ≠ params.length then throw (.ofCode (.unsupported (.argumentCount owner name)))
  else pure ()

mutual

/-- Writes the code that pushes the value of an expression. -/
def Expr.emit : Expr → Emit Unit
  | .this type _ => inCode (CodeBuffer.load type 0)
  | .localVar _ slot type _ => inCode (CodeBuffer.load type slot)
  | .literal value _ => value.emit
  | .staticField owner name type _ => do
    let index ← inPool (Pool.addMember .field owner name type.descriptor)
    write (·.emitOp2 Opcode.getstatic index)
    pushField owner name type
  | .field target owner name type _ => do
    let index ← inPool (Pool.addMember .field owner name type.descriptor)
    target.emit
    write (·.emitOp2 Opcode.getfield index)
    inCode (CodeBuffer.pop 1)
    pushField owner name type
  | .staticCall owner onInterface name params result args _ => do
    checkCall owner name params result args
    Expr.emitAll args
    invoke Opcode.invokestatic (.ofMethod onInterface) owner name params result
  | .call target owner onInterface name params result args _ => do
    checkCall owner name params result args
    target.emit
    Expr.emitAll args
    invoke (if onInterface then Opcode.invokeinterface else Opcode.invokevirtual) (.ofMethod onInterface) owner name params result

/-- Writes the code that pushes the values of expressions in order. -/
def Expr.emitAll : List Expr → Emit Unit
  | [] => pure ()
  | e :: es => do
    e.emit
    Expr.emitAll es

end

end Linkage
