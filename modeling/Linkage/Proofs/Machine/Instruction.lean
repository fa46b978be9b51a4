import Linkage.ClassFile.Constant
import Linkage.Proofs.ClassFile.Encoding

/-!
# Reading instructions

The instructions of a body, read from its bytes by the layout of the class-file format: an opcode, then the operands that belong to
it. `Decodes code is` says that the bytes `code` hold exactly the instructions `is`, whatever follows them, so that code written in
pieces is read piece by piece.
-/

namespace Linkage

/-- The sort of a value that is loaded or returned. -/
inductive SlotKind where
  | int
  | long
  | float
  | double
  | reference
  deriving DecidableEq

namespace SlotKind

/-- The sorts in the order in which the opcodes of loads and returns number them. -/
def ofNumber? : Nat → Option SlotKind
  | 0 => some int
  | 1 => some long
  | 2 => some float
  | 3 => some double
  | 4 => some reference
  | _ => none

/-- The sort of the values of a type. -/
def ofType? : JType → Option SlotKind
  | .prim .long => some long
  | .prim .float => some float
  | .prim .double => some double
  | .prim _ => some int
  | .named _ _ => some reference
  | .array _ => some reference
  | .void => none

end SlotKind

/-- How a method is called. -/
inductive CallKind where
  | onClass
  | onObject
  | onInterface
  | special
  deriving DecidableEq

namespace CallKind

/-- How a method of a class or an interface is called on an object. -/
def ofTarget (onInterface : Bool) : CallKind :=
  if onInterface then .onInterface else .onObject

/-- The number of objects that a call is made on. -/
def targets : CallKind → Nat
  | onClass => 0
  | _ => 1

/-- Whether a call of the kind may name a member of the kind. -/
def accepts : CallKind → MemberKind → Bool
  | onClass, k => k ≠ .field
  | onObject, k => k = .method
  | onInterface, k => k = .interfaceMethod
  | special, k => k ≠ .field

end CallKind

/-- An instruction of straight-line code. An index leads into the constant pool. -/
inductive Instruction where
  | pushNull
  | pushInt (value : Int32)
  | pushConstant (index : UInt16)
  | load (kind : SlotKind) (slot : Nat)
  | dup
  | convert (source target : SlotKind)
  | leave (kind : Option SlotKind)
  | getstatic (index : UInt16)
  | getfield (index : UInt16)
  | call (kind : CallKind) (index : UInt16)
  | invokedynamic (index : UInt16)
  | new (index : UInt16)
  | newarray (element : Primitive)
  | anewarray (index : UInt16)
  | multianewarray (index : UInt16) (sizes : Nat)
  deriving DecidableEq

namespace Instruction

/-- The number of operand bytes that follow an opcode. -/
def operandCount (opcode : Nat) : Nat :=
  if opcode = 0x10 ∨ opcode = 0x12 ∨ opcode = 0xbc ∨ 0x15 ≤ opcode ∧ opcode ≤ 0x19 then 1
  else if opcode = 0x11 ∨ opcode = 0x13 ∨ opcode = 0xbb ∨ opcode = 0xbd ∨ 0xb2 ≤ opcode ∧ opcode ≤ 0xb8 then 2
  else if opcode = 0xc5 then 3
  else if opcode = 0xb9 ∨ opcode = 0xba then 4
  else 0

/-- The element type that an array creation names by a number. -/
def elementOf? : Nat → Option Primitive
  | 4 => some .boolean
  | 5 => some .char
  | 6 => some .float
  | 7 => some .double
  | 8 => some .byte
  | 9 => some .short
  | 10 => some .int
  | 11 => some .long
  | _ => none

/-- The instruction of an opcode without operands. -/
def plain? (opcode : Nat) : Option Instruction :=
  if opcode = 0x01 then some pushNull
  else if 0x02 ≤ opcode ∧ opcode ≤ 0x08 then some (pushInt (Int32.ofInt (opcode - 3)))
  else if 0x1a ≤ opcode ∧ opcode ≤ 0x2d then (SlotKind.ofNumber? ((opcode - 0x1a) / 4)).map fun k => load k ((opcode - 0x1a) % 4)
  else if opcode = 0x59 then some dup
  else if opcode = 0x85 then some (convert .int .long)
  else if opcode = 0x86 then some (convert .int .float)
  else if opcode = 0x87 then some (convert .int .double)
  else if opcode = 0x89 then some (convert .long .float)
  else if opcode = 0x8a then some (convert .long .double)
  else if opcode = 0x8d then some (convert .float .double)
  else if 0xac ≤ opcode ∧ opcode ≤ 0xb0 then (SlotKind.ofNumber? (opcode - 0xac)).map fun k => leave (some k)
  else if opcode = 0xb1 then some (leave none)
  else none

/-- The instruction of an opcode with one operand byte. -/
def withByte? (opcode : Nat) (operand : UInt8) : Option Instruction :=
  if opcode = 0x10 then some (pushInt operand.toInt8.toInt32)
  else if opcode = 0x12 then some (pushConstant operand.toUInt16)
  else if 0x15 ≤ opcode ∧ opcode ≤ 0x19 then (SlotKind.ofNumber? (opcode - 0x15)).map fun k => load k operand.toNat
  else if opcode = 0xbc then (elementOf? operand.toNat).map newarray
  else none

/-- The instruction of an opcode with a 16-bit operand. -/
def withWord? (opcode : Nat) (operand : UInt16) : Option Instruction :=
  if opcode = 0x11 then some (pushInt operand.toInt16.toInt32)
  else if opcode = 0x13 then some (pushConstant operand)
  else if opcode = 0xb2 then some (getstatic operand)
  else if opcode = 0xb4 then some (getfield operand)
  else if opcode = 0xb6 then some (call .onObject operand)
  else if opcode = 0xb7 then some (call .special operand)
  else if opcode = 0xb8 then some (call .onClass operand)
  else if opcode = 0xbb then some (new operand)
  else if opcode = 0xbd then some (anewarray operand)
  else none

/-- The instruction of an opcode with its operand bytes. The count behind the index of an interface call is not looked at. -/
def ofParts? (opcode : Nat) : List UInt8 → Option Instruction
  | [] => plain? opcode
  | [b] => withByte? opcode b
  | [b₁, b₀] => withWord? opcode (word16 b₁ b₀)
  | [b₁, b₀, n] => if opcode = 0xc5 then some (multianewarray (word16 b₁ b₀) n.toNat) else none
  | [b₁, b₀, _, z] =>
    if opcode = 0xb9 ∧ z = 0 then some (call .onInterface (word16 b₁ b₀))
    else if opcode = 0xba ∧ z = 0 then some (invokedynamic (word16 b₁ b₀))
    else none
  | _ => none

/-- Reads instructions to the end of the code; none when an instruction is unknown or cut off. -/
def decodeAll : List UInt8 → Option (List Instruction)
  | [] => some []
  | opcode :: rest =>
    let size := operandCount opcode.toNat
    if rest.length < size then none
    else do
      let i ← ofParts? opcode.toNat (rest.take size)
      let is ← decodeAll (rest.drop size)
      return i :: is
  termination_by code => code.length
  decreasing_by simp only [List.length_drop, List.length_cons]; omega

/-- The bytes hold exactly the instructions, whatever follows them. -/
def Decodes (code : List UInt8) (is : List Instruction) : Prop :=
  ∀ rest, decodeAll (code ++ rest) = (decodeAll rest).map (is ++ ·)

/-- No bytes are no instructions. -/
theorem Decodes.nil : Decodes [] [] := by
  intro rest
  simp

/-- Instructions in a row are decoded one after the other. -/
theorem Decodes.append {c d : List UInt8} {is js : List Instruction} (hc : Decodes c is) (hd : Decodes d js) :
    Decodes (c ++ d) (is ++ js) := by
  intro rest
  rw [List.append_assoc, hc, hd, Option.map_map]
  congr 1
  funext ks
  exact (List.append_assoc is js ks).symm

/-- Code that holds instructions is read as these when nothing follows. -/
theorem Decodes.decodeAll {c : List UInt8} {is : List Instruction} (hc : Decodes c is) : decodeAll c = some is := by
  have h := hc []
  rw [List.append_nil] at h
  rw [h]
  simp [Instruction.decodeAll]

/-- One instruction, from its opcode and its operands. -/
theorem decodes_single {opcode : UInt8} {operands : List UInt8} {i : Instruction}
    (hsize : operands.length = operandCount opcode.toNat) (hi : ofParts? opcode.toNat operands = some i) :
    Decodes (opcode :: operands) [i] := by
  intro rest
  rw [List.cons_append, Instruction.decodeAll]
  simp only [← hsize, List.length_append, List.take_left, List.drop_left, hi, Option.bind_eq_bind, Option.bind_some]
  rw [if_neg (by omega)]
  cases Instruction.decodeAll rest <;> rfl

/-- An instruction with a 16-bit operand. -/
theorem decodes_word {opcode : UInt8} {operand : UInt16} {i : Instruction} (hsize : operandCount opcode.toNat = 2)
    (hi : withWord? opcode.toNat operand = some i) : Decodes (opcode :: be16 operand) [i] := by
  refine decodes_single (by rw [hsize]; rfl) ?_
  rw [be16, ofParts?, word16_be16]
  exact hi

/-- No instruction has more than four bytes of operands. -/
theorem operandCount_le (opcode : Nat) : operandCount opcode ≤ 4 := by
  unfold operandCount
  repeat' split
  all_goals decide

/-- An instruction takes five bytes at most. -/
theorem length_le_of_decodeAll {code : List UInt8} {is : List Instruction} (h : decodeAll code = some is) :
    code.length ≤ 5 * is.length := by
  fun_induction decodeAll code generalizing is with
  | case1 => exact Nat.zero_le _
  | case2 opcode rest size => cases h
  | case3 opcode rest size hlong =>
    rename_i ih
    obtain ⟨i, hi, h⟩ := Option.bind_eq_some_iff.mp h
    obtain ⟨js, hjs, h⟩ := Option.bind_eq_some_iff.mp h
    cases h
    have hrest := ih hjs
    have hsize := operandCount_le opcode.toNat
    rw [List.length_drop] at hrest
    rw [List.length_cons, List.length_cons]
    omega

end Instruction

end Linkage
