import Linkage.ClassFile.Constant
import Linkage.ClassFile.Fault

/-!
# The constant pool

Entries are numbered from one and equal entries are stored once, so adding an entry again gives the index it has.
-/

namespace Linkage

/-- The entries of a class file's constant pool in order of their indices. -/
structure Pool where
  entries : Array Constant := #[]
  deriving DecidableEq

namespace Pool

/-- The number of entries that a pool can hold. -/
def capacity : Nat :=
  65534

/-- The entry of an index; index zero has none. -/
def get? (p : Pool) (index : UInt16) : Option Constant :=
  if index = 0 then none else p.entries[index.toNat - 1]?

/-- The text of a text entry. -/
def utf8? (p : Pool) (index : UInt16) : Option String :=
  match p.get? index with
  | some (.utf8 text) => some text
  | _ => none

/-- The name of a class entry. -/
def className? (p : Pool) (index : UInt16) : Option String :=
  match p.get? index with
  | some (.classRef name) => p.utf8? name
  | _ => none

/-- The name and descriptor of a name-and-type entry. -/
def nameAndType? (p : Pool) (index : UInt16) : Option (String × String) :=
  match p.get? index with
  | some (.nameAndType name descriptor) => do return (← p.utf8? name, ← p.utf8? descriptor)
  | _ => none

/-- The owner, name and descriptor of a member entry. -/
def member? (p : Pool) (index : UInt16) : Option (String × String × String) :=
  match p.get? index with
  | some (.member _ owner signature) => do return (← p.className? owner, ← p.nameAndType? signature)
  | _ => none

/-- A step that works on a pool. -/
abbrev Step (α : Type) : Type :=
  EStateM PoolFault Pool α

/-- The index of an entry, which is added at the end unless it is there. -/
def add (c : Constant) : Step UInt16 := fun p =>
  match p.entries.findIdx? (· = c) with
  | some i => .ok (i + 1).toUInt16 p
  | none =>
    if p.entries.size < capacity then .ok (p.entries.size + 1).toUInt16 ⟨p.entries.push c⟩
    else .error .full p

def addUtf8 (text : String) : Step UInt16 :=
  add (.utf8 text)

def addInteger (value : Int32) : Step UInt16 :=
  add (.integer value)

def addClass (name : String) : Step UInt16 := do
  add (.classRef (← addUtf8 name))

def addString (text : String) : Step UInt16 := do
  add (.string (← addUtf8 text))

def addNameAndType (name descriptor : String) : Step UInt16 := do
  let nameIndex ← addUtf8 name
  let descriptorIndex ← addUtf8 descriptor
  add (.nameAndType nameIndex descriptorIndex)

def addMember (kind : MemberKind) (owner name descriptor : String) : Step UInt16 := do
  let ownerIndex ← addClass owner
  let nameAndTypeIndex ← addNameAndType name descriptor
  add (.member kind ownerIndex nameAndTypeIndex)

/-- A handle of a kind on a method whose owner is, or is not, an interface. -/
def addMethodHandle (kind : UInt8) (owner name descriptor : String) (onInterface : Bool) : Step UInt16 := do
  add (.methodHandle kind (← addMember (.ofMethod onInterface) owner name descriptor))

def addMethodType (descriptor : String) : Step UInt16 := do
  add (.methodType (← addUtf8 descriptor))

def addInvokeDynamic (bootstrapIndex : UInt16) (name descriptor : String) : Step UInt16 := do
  add (.invokeDynamic bootstrapIndex (← addNameAndType name descriptor))

/-- The encoding of a pool: the number of indices, the unused zero among them, then the entries. -/
def toBytes (p : Pool) : List UInt8 :=
  be16 (p.entries.size + 1).toUInt16 ++ p.entries.toList.flatMap Constant.toBytes

end Pool

end Linkage
