import Linkage.ClassFile.Basic
import Linkage.Verification.Flaw

/-!
# Checks of methods

A method must have flags that go together, a name and a descriptor, and a body that ends in a return unless it is abstract.
-/

namespace Linkage

/-- Whether the flags of a method exclude each other. -/
def Access.conflicts (a : Access) (inInterface : Bool) : Bool :=
  1 < ([Access.accPublic, .accProtected, .accPrivate].filter a.meets).length ||
    (inInterface && a.meets (.accProtected ||| .accFinal)) ||
    (a.isAbstract && a.meets (.accPrivate ||| .accStatic ||| .accFinal))

namespace ClassFile

/-- Checks that an index of a method leads to a text. -/
def checkText (f : ClassFile) (index : UInt16) : Except MethodFlaw Unit :=
  match f.pool.get? index with
  | some (.utf8 _) => .ok ()
  | none => .error (.danglingIndex index)
  | some _ => .error (.wrongEntry index)

/-- Checks that a body can be read and that its last byte is a return instruction. -/
def checkBody (f : ClassFile) (m : MethodEntry) : Except MethodFlaw Unit :=
  match f.body? m with
  | none => .error .missingCode
  | some body =>
    match body.code.getLast? with
    | some opcode => if opcode ∈ Opcode.returns then .ok () else .error .missingReturn
    | none => .error .missingReturn

/-- Checks that a method has one body, or none if it is abstract. -/
def checkCode (f : ClassFile) (m : MethodEntry) : Except MethodFlaw Unit :=
  match m.access.isAbstract, m.attributes.countP f.isBody with
  | true, 0 => .ok ()
  | true, _ => .error .forbiddenCode
  | false, 0 => .error .missingCode
  | false, 1 => f.checkBody m
  | false, _ => .error (.duplicateAttribute MethodBody.attributeName)

/-- Checks a method. -/
def checkMethod (f : ClassFile) (m : MethodEntry) : Except MethodFlaw Unit := do
  if m.access.conflicts f.isInterface then throw (.accessFlags m.access.bits)
  f.checkText m.nameIndex
  f.checkText m.descriptorIndex
  f.checkCode m

/-- Checks the methods in order. -/
def checkMethods (f : ClassFile) : Except MethodFlaw Unit :=
  checkEach (fun _ m => f.checkMethod m) 0 f.methods.toList

end ClassFile

end Linkage
