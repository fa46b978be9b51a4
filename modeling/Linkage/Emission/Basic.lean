import Linkage.ClassFile.Basic
import Linkage.Fault

/-!
# Emission

Code is written into a buffer while the constants it names go into the pool of its class file. A step keeps what it wrote also when it
fails.
-/

namespace Linkage

/-- The pool and the buffer that code is written to. -/
structure Emission where
  pool : Pool
  code : CodeBuffer
  deriving DecidableEq

/-- A step that writes code. -/
abbrev Emit (α : Type) : Type :=
  EStateM Fault Emission α

namespace Emit

variable {α : Type}

/-- Runs a step on the pool. -/
def inPool (step : Pool.Step α) : Emit α :=
  focus Emission.pool (fun p e => { e with pool := p }) .ofPool step

/-- Runs a step on the buffer. -/
def inCode (step : CodeBuffer.Step α) : Emit α :=
  focus Emission.code (fun b e => { e with code := b }) .ofCode step

/-- Writes to the buffer. -/
def write (f : CodeBuffer → CodeBuffer) : Emit Unit :=
  inCode (modify f)

/-- Calls a method with a new or known entry of the pool. -/
def invoke (opcode : UInt8) (kind : MemberKind) (owner name : String) (params : List JType) (result : JType) : Emit Unit := do
  let index ← inPool (Pool.addMember kind owner name (methodDescriptor params result))
  inCode (CodeBuffer.invoke opcode index params result)

end Emit

end Linkage
