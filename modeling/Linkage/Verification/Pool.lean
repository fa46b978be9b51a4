import Linkage.ClassFile.Basic
import Linkage.Settings
import Linkage.Verification.Flaw

/-!
# Checks of the constant pool

Every index in an entry must lead to an entry of the kind that its place asks for, and every bootstrap method must be a handle with
arguments that can be loaded.
-/

namespace Linkage

namespace Constant

def isUtf8 : Constant → Bool
  | utf8 _ => true
  | _ => false

def isClass : Constant → Bool
  | classRef _ => true
  | _ => false

def isNameAndType : Constant → Bool
  | nameAndType _ _ => true
  | _ => false

def isMethodHandle : Constant → Bool
  | methodHandle _ _ => true
  | _ => false

/-- Whether an entry is a reference to a member of one of the kinds. -/
def isMemberOf (kinds : List MemberKind) : Constant → Bool
  | member kind _ _ => kind ∈ kinds
  | _ => false

/-- Whether an entry can be pushed on the stack or passed to a bootstrap method. -/
def isLoadable : Constant → Bool
  | integer _ => true
  | string _ => true
  | classRef _ => true
  | methodHandle _ _ => true
  | methodType _ => true
  | _ => false

end Constant

/-- The members that a handle of a kind may name in a class file of a version; none for a number that is no kind. -/
def handleMembers? (version : UInt16) (kind : UInt8) : Option (List MemberKind) :=
  if kind ∈ [1, 2, 3, 4] then some [.field]
  else if kind ∈ [5, 8] then some [.method]
  else if kind ∈ [6, 7] then some (if oldestVersion ≤ version then [.method, .interfaceMethod] else [.method])
  else if kind = 9 then some [.interfaceMethod]
  else none

namespace ClassFile

/-- Checks that an index in the entry of number `place` leads to an entry that fits. -/
def expect (f : ClassFile) (place index : UInt16) (fits : Constant → Bool) : Except PoolFlaw Unit :=
  match f.pool.get? index with
  | none => .error (.danglingIndex place)
  | some c => if fits c then .ok () else .error (.wrongEntry place)

/-- Checks the bootstrap index of a dynamic call site. -/
def checkBootstrapIndex (f : ClassFile) (index : UInt16) : Except PoolFlaw Unit :=
  if f.bootstraps.isEmpty then .error .noBootstraps
  else if f.bootstraps.size ≤ index.toNat then .error (.bootstrapIndex index)
  else .ok ()

/-- Checks the indices of the entry of number `place`. -/
def checkConstant (f : ClassFile) (place : UInt16) : Constant → Except PoolFlaw Unit
  | .utf8 _ => .ok ()
  | .integer _ => .ok ()
  | .classRef name => f.expect place name Constant.isUtf8
  | .string text => f.expect place text Constant.isUtf8
  | .member _ owner signature => do
    f.expect place owner Constant.isClass
    f.expect place signature Constant.isNameAndType
  | .nameAndType name descriptor => do
    f.expect place name Constant.isUtf8
    f.expect place descriptor Constant.isUtf8
  | .methodHandle kind reference =>
    match handleMembers? f.majorVersion kind with
    | none => .error (.handleKind place kind)
    | some kinds => f.expect place reference (Constant.isMemberOf kinds)
  | .methodType descriptor => f.expect place descriptor Constant.isUtf8
  | .invokeDynamic bootstrap signature => do
    f.checkBootstrapIndex bootstrap
    f.expect place signature Constant.isNameAndType

/-- Checks the bootstrap method of number `place`. -/
def checkBootstrap (f : ClassFile) (place : Nat) (b : Bootstrap) : Except PoolFlaw Unit := do
  if !(f.pool.get? b.methodRef).any Constant.isMethodHandle then throw (.bootstrapMethod place)
  match b.arguments.find? fun argument => !(f.pool.get? argument).any Constant.isLoadable with
  | some argument => throw (.bootstrapArgument place argument)
  | none => return ()

/-- Checks the constant pool and the bootstrap table. -/
def checkPool (f : ClassFile) : Except PoolFlaw Unit := do
  checkEach (fun i c => f.checkConstant i.toUInt16 c) 1 f.pool.entries.toList
  checkEach f.checkBootstrap 0 f.bootstraps.toList

end ClassFile

end Linkage
