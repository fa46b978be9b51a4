import Linkage.ClassFile.Fault
import Linkage.ClassFile.Bytes
import Linkage.ClassFile.Opcode
import Linkage.Descriptor

/-!
# Code buffers

A body under construction: the bytes written so far, and what they do to the operand stack. Only straight-line code is written, so
one list of entries describes the stack at the end of the code.
-/

namespace Linkage

/-- What is known of a value on the operand stack. -/
inductive StackType where
  | int
  | float
  | long
  | double
  | null
  | object (name : String)
  deriving DecidableEq

namespace StackType

/-- The number of stack slots a value takes. -/
def width : StackType → UInt16
  | long => 2
  | double => 2
  | _ => 1

/-- What is known of a value of a type; `void` has no values. -/
def ofType? : JType → Option StackType
  | .void => none
  | .prim .long => some long
  | .prim .float => some float
  | .prim .double => some double
  | .prim _ => some int
  | .named k n => some (object (JType.named k n).constantName)
  | .array c => some (object (JType.array c).constantName)

end StackType

/-- An instruction that was written while the buffer was traced: where, at which stack depth, and which. -/
structure TracedOp where
  offset : Nat
  depth : UInt16
  opcode : UInt8
  deriving DecidableEq

/-- Code under construction. -/
structure CodeBuffer where
  bytes : Array UInt8 := #[]
  /-- The number of local slots that the body needs. -/
  maxLocals : UInt16 := 0
  /-- The entries of the operand stack behind the last instruction, top first. -/
  stack : List StackType := []
  /-- The slots that the entries take. -/
  depth : UInt16 := 0
  /-- The largest depth so far. -/
  maxDepth : UInt16 := 0
  /-- Whether instructions are traced. -/
  tracing : Bool := false
  traced : Array TracedOp := #[]
  deriving DecidableEq

namespace CodeBuffer

/-- An empty buffer with the local slots that are taken from the start. -/
def create (maxLocals : UInt16) (tracing : Bool) : CodeBuffer :=
  { maxLocals := maxLocals, tracing := tracing }

/-- The number of bytes that a body may have. -/
def maxSize : Nat :=
  65535

def emitByte (b : CodeBuffer) (byte : UInt8) : CodeBuffer :=
  { b with bytes := b.bytes.push byte }

def emitWord (b : CodeBuffer) (word : UInt16) : CodeBuffer :=
  { b with bytes := b.bytes ++ be16 word }

/-- Writes an opcode and traces it. -/
def emitOp (b : CodeBuffer) (opcode : UInt8) : CodeBuffer :=
  { b with
    bytes := b.bytes.push opcode
    traced := if b.tracing then b.traced.push ⟨b.bytes.size, b.depth, opcode⟩ else b.traced }

/-- Writes an instruction with a one-byte operand. -/
def emitOp1 (b : CodeBuffer) (opcode operand : UInt8) : CodeBuffer :=
  (b.emitOp opcode).emitByte operand

/-- Writes an instruction with a two-byte operand. -/
def emitOp2 (b : CodeBuffer) (opcode : UInt8) (operand : UInt16) : CodeBuffer :=
  (b.emitOp opcode).emitWord operand

/-- Records that a value was pushed. -/
def push (b : CodeBuffer) (t : StackType) : CodeBuffer :=
  { b with stack := t :: b.stack, depth := b.depth + t.width, maxDepth := max b.maxDepth (b.depth + t.width) }

/-- Records that a value of a type was pushed; nothing for `void`. -/
def pushType (b : CodeBuffer) (t : JType) : CodeBuffer :=
  match StackType.ofType? t with
  | some entry => b.push entry
  | none => b

/-- Pushes a pool entry, with the wide form of the instruction for an index beyond one byte. -/
def loadConstant (b : CodeBuffer) (index : UInt16) (t : StackType) : CodeBuffer :=
  (if index ≤ 255 then b.emitOp1 Opcode.ldc index.toUInt8 else b.emitOp2 Opcode.ldcW index).push t

/-- A step that works on a buffer. -/
abbrev Step (α : Type) : Type :=
  EStateM CodeFault CodeBuffer α

/-- Records that the top value was popped. -/
def popOne : Step Unit := fun b =>
  match b.stack with
  | [] => .error .stackUnderflow b
  | top :: rest => .ok () { b with stack := rest, depth := b.depth - top.width }

/-- Records that values were popped, one after the other. -/
def pop : Nat → Step Unit
  | 0 => pure ()
  | count + 1 => do
    popOne
    pop count

/-- Makes sure that the body has at least so many local slots. -/
def ensureLocals (slots : Nat) : Step Unit :=
  if slots < UInt16.size then modify fun b => { b with maxLocals := max b.maxLocals slots.toUInt16 }
  else throw (.tooManyLocals slots)

/-- Loads a local with the given load instruction, or with its one-byte form for the first slots. -/
def loadSlot (opcode opcode0 : UInt8) (slot : Nat) : Step Unit :=
  if slot ≤ 3 then modify (·.emitOp (opcode0 + slot.toUInt8))
  else if slot ≤ 255 then modify (·.emitOp1 opcode slot.toUInt8)
  else throw (.tooManyLocals slot)

/-- Loads a local of a type. -/
def load (t : JType) (slot : Nat) : Step Unit := do
  match t with
  | .prim p => loadSlot (Opcode.loadPrimitive p) (Opcode.loadPrimitive0 p) slot
  | .named _ _ => loadSlot Opcode.aload Opcode.aload0 slot
  | .array _ => loadSlot Opcode.aload Opcode.aload0 slot
  | .void => throw (.unsupported .loadOfVoid)
  modify (·.pushType t)

/-- The slots that arguments of the types take. -/
def slots (types : List JType) : Nat :=
  types.foldr (fun t total => t.width + total) 0

/-- Calls a method: pops the arguments, and the receiver unless the call is static, and pushes the result. -/
def invoke (opcode : UInt8) (index : UInt16) (params : List JType) (result : JType) : Step Unit := do
  modify (·.emitOp2 opcode index)
  if opcode = Opcode.invokeinterface then
    modify fun b => (b.emitByte (slots params + 1).toUInt8).emitByte 0
  pop (params.length + if opcode = Opcode.invokestatic then 0 else 1)
  modify (·.pushType result)

/-- Calls a call site: pops the captured values and pushes what the site produces. -/
def invokeDynamic (index : UInt16) (captured : Nat) (result : StackType) : Step Unit := do
  modify fun b => (b.emitOp2 Opcode.invokedynamic index).emitWord 0
  pop captured
  modify (·.push result)

/-- Returns a value of a type. -/
def emitReturn (t : JType) : Step Unit := do
  modify (·.emitOp (Opcode.returnOf t))
  pop (if t = .void then 0 else 1)

/-- Checks that a body of this size can be stored. -/
def checkSize (b : CodeBuffer) : Except CodeFault Unit :=
  if b.bytes.size ≤ maxSize then .ok () else .error .tooLarge

end CodeBuffer

end Linkage
