import Linkage.ClassFile.Attribute
import Linkage.ClassFile.Pool
import Linkage.Focus

/-!
# Class files

The class file of the enclosing type while code is added to it: its constant pool, its methods and its bootstrap methods.
-/

namespace Linkage

/-- A class file under construction. -/
structure ClassFile where
  /-- The internal name of the class. -/
  name : String
  isInterface : Bool
  majorVersion : UInt16
  pool : Pool := {}
  methods : Array MethodEntry := #[]
  bootstraps : Array Bootstrap := #[]
  deriving DecidableEq

namespace ClassFile

/-- The number of bootstrap methods that a class file can hold. -/
def maxBootstraps : Nat :=
  65535

/-- A step that works on a class file. -/
abbrev Step (α : Type) : Type :=
  EStateM FileFault ClassFile α

/-- Runs a pool step on the pool of the class file. -/
def inPool {α : Type} (step : Pool.Step α) : Step α :=
  focus pool (fun p f => { f with pool := p }) .pool step

/-- The index of a bootstrap method, which is added at the end unless an equal one is there. -/
def addBootstrap (methodRef : UInt16) (arguments : List UInt16) : Step UInt16 := fun f =>
  match f.bootstraps.findIdx? (· = ⟨methodRef, arguments⟩) with
  | some i => .ok i.toUInt16 f
  | none =>
    if f.bootstraps.size < maxBootstraps then
      .ok f.bootstraps.size.toUInt16 { f with bootstraps := f.bootstraps.push ⟨methodRef, arguments⟩ }
    else .error .tooManyBootstraps f

/-- Whether a method has this name and descriptor, as far as its indices name texts. -/
def isMethod (f : ClassFile) (name descriptor : String) (m : MethodEntry) : Bool :=
  f.pool.utf8? m.nameIndex = some name && f.pool.utf8? m.descriptorIndex = some descriptor

/-- The first method of a name and descriptor. -/
def findMethod? (f : ClassFile) (name descriptor : String) : Option MethodEntry :=
  f.methods.find? (f.isMethod name descriptor)

/-- Adds a method with the code of a buffer. Its name and descriptor must be new and its code must fit. -/
def addMethod (access : Access) (name descriptor : String) (code : CodeBuffer) : Step Unit := do
  if ((← get).findMethod? name descriptor).isSome then throw (.duplicateMethod name descriptor)
  answer (code.checkSize.mapError .code)
  let nameIndex ← inPool (Pool.addUtf8 name)
  let descriptorIndex ← inPool (Pool.addUtf8 descriptor)
  let attributeIndex ← inPool (Pool.addUtf8 MethodBody.attributeName)
  let body := (MethodBody.ofBuffer code).toBytes
  modify fun f => { f with methods := f.methods.push ⟨access, nameIndex, descriptorIndex, [⟨attributeIndex, body⟩]⟩ }

/-- Whether an attribute holds a body. -/
def isBody (f : ClassFile) (a : Attribute) : Bool :=
  f.pool.utf8? a.nameIndex = some MethodBody.attributeName

/-- The body of a method, read back from its first body attribute. -/
def body? (f : ClassFile) (m : MethodEntry) : Option MethodBody :=
  (m.attributes.find? f.isBody).bind fun a => MethodBody.ofBytes? a.info

/-- The attribute that holds the bootstrap methods; none when there are no such methods. -/
def bootstrapAttribute : Step (Option Attribute) := do
  let table := (← get).bootstraps.toList
  if table.isEmpty then return none
  let nameIndex ← inPool (Pool.addUtf8 Bootstrap.attributeName)
  return some ⟨nameIndex, Bootstrap.tableBytes table⟩

end ClassFile

end Linkage
