import Linkage.JType

/-!
# Instructions

The opcodes of the instructions that are emitted, and the numbers that stand for element types in array creation.
-/

namespace Linkage

namespace Opcode

def aconstNull : UInt8 := 0x01

/-- Pushes the constant zero; the opcodes around it push the constants from minus one to five. -/
def iconst0 : UInt8 := 0x03

def bipush : UInt8 := 0x10

def sipush : UInt8 := 0x11

def ldc : UInt8 := 0x12

def ldcW : UInt8 := 0x13

def iload : UInt8 := 0x15

def lload : UInt8 := 0x16

def fload : UInt8 := 0x17

def dload : UInt8 := 0x18

def aload : UInt8 := 0x19

/-- Loads from slot zero; the three opcodes behind each of the `load0` forms load from the next slots. -/
def iload0 : UInt8 := 0x1a

def lload0 : UInt8 := 0x1e

def fload0 : UInt8 := 0x22

def dload0 : UInt8 := 0x26

def aload0 : UInt8 := 0x2a

def dup : UInt8 := 0x59

def i2l : UInt8 := 0x85

def i2f : UInt8 := 0x86

def i2d : UInt8 := 0x87

def l2f : UInt8 := 0x89

def l2d : UInt8 := 0x8a

def f2d : UInt8 := 0x8d

def ireturn : UInt8 := 0xac

def lreturn : UInt8 := 0xad

def freturn : UInt8 := 0xae

def dreturn : UInt8 := 0xaf

def areturn : UInt8 := 0xb0

def vreturn : UInt8 := 0xb1

def getstatic : UInt8 := 0xb2

def getfield : UInt8 := 0xb4

def invokevirtual : UInt8 := 0xb6

def invokespecial : UInt8 := 0xb7

def invokestatic : UInt8 := 0xb8

def invokeinterface : UInt8 := 0xb9

def invokedynamic : UInt8 := 0xba

def new : UInt8 := 0xbb

def newarray : UInt8 := 0xbc

def anewarray : UInt8 := 0xbd

def multianewarray : UInt8 := 0xc5

/-- The instructions that end a method body. -/
def returns : List UInt8 :=
  [ireturn, lreturn, freturn, dreturn, areturn, vreturn]

/-- The load instruction of a primitive type. -/
def loadPrimitive : Primitive → UInt8
  | .long => lload
  | .float => fload
  | .double => dload
  | _ => iload

/-- The one-byte load instruction of a primitive type for slot zero. -/
def loadPrimitive0 : Primitive → UInt8
  | .long => lload0
  | .float => fload0
  | .double => dload0
  | _ => iload0

/-- The instruction that returns a value of a type. -/
def returnOf : JType → UInt8
  | .prim .long => lreturn
  | .prim .float => freturn
  | .prim .double => dreturn
  | .prim _ => ireturn
  | .named _ _ => areturn
  | .array _ => areturn
  | .void => vreturn

/-- The instruction that widens one primitive type to another, if there is one. Types that are computed with as `int`
widen alike. -/
def widening? (p q : Primitive) : Option UInt8 :=
  match p, q with
  | .long, .float => some l2f
  | .long, .double => some l2d
  | .float, .double => some f2d
  | p, .long => if p.computesAsInt then some i2l else none
  | p, .float => if p.computesAsInt then some i2f else none
  | p, .double => if p.computesAsInt then some i2d else none
  | _, _ => none

/-- The number by which an array creation names a primitive element type. -/
def elementCode : Primitive → UInt8
  | .boolean => 4
  | .char => 5
  | .float => 6
  | .double => 7
  | .byte => 8
  | .short => 9
  | .int => 10
  | .long => 11

/-- Names of instructions, each with the first and the last opcode it stands for. -/
def mnemonics : List (UInt8 × UInt8 × String) :=
  [(0x01, 0x01, "aconst_null"), (0x02, 0x08, "iconst"), (0x10, 0x10, "bipush"), (0x11, 0x11, "sipush"), (0x12, 0x12, "ldc"),
    (0x13, 0x13, "ldc_w"), (0x15, 0x15, "iload"), (0x16, 0x16, "lload"), (0x17, 0x17, "fload"), (0x18, 0x18, "dload"),
    (0x19, 0x19, "aload"), (0x1a, 0x1d, "iload"), (0x1e, 0x21, "lload"), (0x22, 0x25, "fload"), (0x26, 0x29, "dload"),
    (0x2a, 0x2d, "aload"), (0x59, 0x59, "dup"), (0x85, 0x85, "i2l"), (0x86, 0x86, "i2f"), (0x87, 0x87, "i2d"), (0x89, 0x89, "l2f"),
    (0x8a, 0x8a, "l2d"), (0x8d, 0x8d, "f2d"), (0xac, 0xac, "ireturn"), (0xad, 0xad, "lreturn"), (0xae, 0xae, "freturn"),
    (0xaf, 0xaf, "dreturn"), (0xb0, 0xb0, "areturn"), (0xb1, 0xb1, "return"), (0xb2, 0xb2, "getstatic"), (0xb4, 0xb4, "getfield"),
    (0xb6, 0xb6, "invokevirtual"), (0xb7, 0xb7, "invokespecial"), (0xb8, 0xb8, "invokestatic"), (0xb9, 0xb9, "invokeinterface"),
    (0xba, 0xba, "invokedynamic"), (0xbb, 0xbb, "new"), (0xbc, 0xbc, "newarray"), (0xbd, 0xbd, "anewarray"),
    (0xc5, 0xc5, "multianewarray")]

/-- The name of the instruction of an opcode. -/
def mnemonic (opcode : UInt8) : String :=
  match mnemonics.find? fun (first, last, _) => first ≤ opcode && opcode ≤ last with
  | some (_, _, name) => name
  | none => "<unknown>"

end Opcode

end Linkage
