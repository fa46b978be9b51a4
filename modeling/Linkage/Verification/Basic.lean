import Linkage.Verification.Methods
import Linkage.Verification.Pool

/-!
# Verification

Checks what lowering adds to a class file: the version, the constant pool with the bootstrap table, and the methods.
-/

namespace Linkage

namespace ClassFile

/-- The oldest version whose class files may have dynamic call sites. -/
def dynamicVersion : UInt16 :=
  51

/-- Checks that the version allows the call sites that the class file has. -/
def checkVersion (f : ClassFile) : Except Flaw Unit :=
  if f.majorVersion < dynamicVersion && !f.bootstraps.isEmpty then .error (.version f.majorVersion) else .ok ()

/-- Verifies a class file, up to the first flaw. -/
def verify (f : ClassFile) : Except Flaw Unit := do
  f.checkVersion
  f.checkPool.mapError .pool
  f.checkMethods.mapError .method

end ClassFile

end Linkage
