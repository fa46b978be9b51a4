import Linkage.ClassFile.Bytes

/-!
# Flaws of a class file

What the verifier finds wrong, each with the place where it is.
-/

namespace Linkage

/-- A flaw of the constant pool or the bootstrap table. -/
inductive PoolFlaw where
  | danglingIndex (index : UInt16)
  | wrongEntry (index : UInt16)
  | handleKind (index : UInt16) (kind : UInt8)
  | noBootstraps
  | bootstrapIndex (index : UInt16)
  | bootstrapMethod (index : Nat)
  | bootstrapArgument (index : Nat) (argument : UInt16)
  deriving DecidableEq

def PoolFlaw.message : PoolFlaw → String
  | danglingIndex index => s!"Invalid constant pool index {index}"
  | wrongEntry index => s!"Invalid constant pool index type {index}"
  | handleKind index kind => s!"Invalid method handle reference kind {kind} at {index}"
  | noBootstraps => "BootstrapMethods attribute not defined"
  | bootstrapIndex index => s!"Invalid bootstrap method index {index}"
  | bootstrapMethod index => s!"Bootstrap method {index} does not reference a method handle"
  | bootstrapArgument index argument => s!"Bootstrap argument {argument} of bootstrap method {index} is not loadable"

/-- A flaw of a method. -/
inductive MethodFlaw where
  | danglingIndex (index : UInt16)
  | wrongEntry (index : UInt16)
  | accessFlags (bits : UInt16)
  | missingCode
  | forbiddenCode
  | duplicateAttribute (name : String)
  | missingReturn
  deriving DecidableEq

def MethodFlaw.message : MethodFlaw → String
  | danglingIndex index => s!"Invalid constant pool index {index}"
  | wrongEntry index => s!"Invalid constant pool index type {index}"
  | accessFlags bits => "Invalid method access flags: 0x" ++ hexText (be16 bits)
  | missingCode => "Method must have Code attribute unless abstract"
  | forbiddenCode => "Abstract method must not have Code attribute"
  | duplicateAttribute name => "Duplicate method attribute: " ++ name
  | missingReturn => "Method code does not end with a return instruction"

/-- A flaw of a class file. -/
inductive Flaw where
  | pool (flaw : PoolFlaw)
  | method (flaw : MethodFlaw)
  | version (major : UInt16)
  deriving DecidableEq

def Flaw.message : Flaw → String
  | pool flaw => flaw.message
  | method flaw => flaw.message
  | version major => s!"Unsupported class file version {major}: invokedynamic needs 51 or later"

/-- Checks the members of a list in order, each with its number, up to the first flaw. -/
def checkEach {ε α : Type} (check : Nat → α → Except ε Unit) : Nat → List α → Except ε Unit
  | _, [] => .ok ()
  | i, x :: xs => do
    check i x
    checkEach check (i + 1) xs

end Linkage
