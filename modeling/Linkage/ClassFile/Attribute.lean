import Linkage.Access
import Linkage.ClassFile.CodeBuffer

/-!
# Attributes and methods of a class file

The records in which a class file keeps method bodies and bootstrap methods, and their encodings.
-/

namespace Linkage

/-- A named stretch of bytes attached to a method or class. -/
structure Attribute where
  nameIndex : UInt16
  info : List UInt8
  deriving DecidableEq

/-- The encoding of an attribute: its name, the number of its bytes, the bytes. -/
def Attribute.toBytes (a : Attribute) : List UInt8 :=
  be16 a.nameIndex ++ be32 a.info.length.toUInt32 ++ a.info

/-- The body of a method. -/
structure MethodBody where
  maxStack : UInt16
  maxLocals : UInt16
  code : List UInt8
  deriving DecidableEq

namespace MethodBody

/-- The name of the attribute that holds a body. -/
def attributeName : String :=
  "Code"

def ofBuffer (b : CodeBuffer) : MethodBody :=
  ⟨b.maxDepth, b.maxLocals, b.bytes.toList⟩

/-- The encoding of a body; it has no exception handlers and no attributes of its own. -/
def toBytes (m : MethodBody) : List UInt8 :=
  be16 m.maxStack ++ be16 m.maxLocals ++ be32 m.code.length.toUInt32 ++ m.code ++ be16 0 ++ be16 0

/-- Reads a body from the start of its encoding; what follows the code is not looked at. -/
def ofBytes? : List UInt8 → Option MethodBody
  | s₁ :: s₀ :: l₁ :: l₀ :: n₃ :: n₂ :: n₁ :: n₀ :: rest =>
    let size := (word32 n₃ n₂ n₁ n₀).toNat
    if size ≤ rest.length then some ⟨word16 s₁ s₀, word16 l₁ l₀, rest.take size⟩ else none
  | _ => none

end MethodBody

/-- A method of a class file. -/
structure MethodEntry where
  access : Access
  nameIndex : UInt16
  descriptorIndex : UInt16
  attributes : List Attribute
  deriving DecidableEq

/-- The encoding of a method: flags, name, descriptor, the number of attributes, the attributes. -/
def MethodEntry.toBytes (m : MethodEntry) : List UInt8 :=
  be16 m.access.bits ++ be16 m.nameIndex ++ be16 m.descriptorIndex ++ be16 m.attributes.length.toUInt16 ++
    m.attributes.flatMap Attribute.toBytes

/-- A bootstrap method with its static arguments, both as pool indices. -/
structure Bootstrap where
  methodRef : UInt16
  arguments : List UInt16
  deriving DecidableEq

namespace Bootstrap

/-- The name of the attribute that holds the bootstrap methods. -/
def attributeName : String :=
  "BootstrapMethods"

/-- The encoding of an entry: the handle, the number of arguments, the arguments. -/
def toBytes (b : Bootstrap) : List UInt8 :=
  be16 b.methodRef ++ be16 b.arguments.length.toUInt16 ++ b.arguments.flatMap be16

/-- The encoding of a table: the number of entries, the entries. -/
def tableBytes (table : List Bootstrap) : List UInt8 :=
  be16 table.length.toUInt16 ++ table.flatMap toBytes

end Bootstrap

end Linkage
