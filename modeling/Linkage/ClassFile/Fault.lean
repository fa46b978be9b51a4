/-!
# Faults of class-file assembly

What can go wrong while constants, code and methods are added to a class file.
-/

namespace Linkage

/-- Why a constant cannot be added. -/
inductive PoolFault where
  | full
  deriving DecidableEq

def PoolFault.message : PoolFault → String
  | full => "Constant pool is out of space"

/-- An expression for which no code can be written. -/
inductive Unsupported where
  | loadOfVoid
  | voidField (owner name : String)
  | voidCall (owner name : String)
  | argumentCount (owner name : String)
  deriving DecidableEq

def Unsupported.message : Unsupported → String
  | loadOfVoid => "load of void"
  | voidField owner name => s!"field {owner}.{name} of type void"
  | voidCall owner name => s!"receiver call {owner}.{name} returns void"
  | argumentCount owner name => s!"call to {owner}.{name} has mismatched argument count"

/-- Why an instruction or a body cannot be written. -/
inductive CodeFault where
  | stackUnderflow
  | tooManyLocals (slots : Nat)
  | tooLarge
  | unsupported (what : Unsupported)
  deriving DecidableEq

def CodeFault.message : CodeFault → String
  | stackUnderflow => "Stack underflow"
  | tooManyLocals slots => s!"Too many local variable slots: {slots}"
  | tooLarge => "Code size exceeds 65535 bytes"
  | unsupported what => "Unsupported expression: " ++ what.message

/-- Why a part cannot be added to a class file. -/
inductive FileFault where
  | pool (fault : PoolFault)
  | code (fault : CodeFault)
  | duplicateMethod (name descriptor : String)
  | tooManyBootstraps
  deriving DecidableEq

def FileFault.message : FileFault → String
  | pool fault => "Constant pool error: " ++ fault.message
  | code fault => "Bytecode generation error: " ++ fault.message
  | duplicateMethod name descriptor => s!"Duplicate method: {name}{descriptor}"
  | tooManyBootstraps => "Too many bootstrap methods"

end Linkage
