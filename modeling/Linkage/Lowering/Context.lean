import Linkage.Accessibility
import Linkage.Emission.Receiver
import Linkage.NameSupply
import Linkage.Resolution.Basic
import Linkage.Settings

/-!
# What lowering works on

The state that lowering changes, which is the known types, the names left for synthetic members, the class file and the code of the
method that is being written, and the context of one reference, which it only reads.
-/

namespace Linkage

/-- What lowering changes. -/
structure Workspace where
  classes : ClassTable
  names : NameSupply
  file : ClassFile
  code : CodeBuffer

/-- Where a reference stands and how it is to be lowered. -/
structure Context where
  settings : Settings
  /-- The method that the reference stands in; none outside of all methods. -/
  method : Option String
  policy : AccessPolicy
  /-- Writes the code of a receiver expression. -/
  emitReceiver : Expr → Emit Unit

/-- A step of lowering. -/
abbrev Lower (α : Type) : Type :=
  EStateM Fault Workspace α

namespace Workspace

/-- The scope of the code of the enclosing type. -/
def scope (w : Workspace) (policy : AccessPolicy) : Scope :=
  ⟨w.classes, policy, w.names.owner⟩

/-- The pool and the code of the method that is being written. -/
def emission (w : Workspace) : Emission :=
  ⟨w.file.pool, w.code⟩

/-- The workspace with another pool. -/
def withPool (w : Workspace) (pool : Pool) : Workspace :=
  { w with file := { w.file with pool := pool } }

/-- The workspace with another pool and other code. -/
def withEmission (w : Workspace) (e : Emission) : Workspace :=
  { w.withPool e.pool with code := e.code }

end Workspace

namespace Lower

variable {α : Type}

/-- Writes into the method that is being written. -/
def emit (step : Emit α) : Lower α :=
  focus Workspace.emission (fun e w => w.withEmission e) id step

/-- Adds to the class file. -/
def inFile (step : ClassFile.Step α) (fault : FileFault → Fault := .file) : Lower α :=
  focus Workspace.file (fun f w => { w with file := f }) fault step

/-- Writes a body of its own, beginning with an empty buffer, and gives the finished buffer back. -/
def assemble (tracing : Bool) (step : Emit Unit) : Lower CodeBuffer := fun w =>
  match step ⟨w.file.pool, .create 0 tracing⟩ with
  | .ok _ e => .ok e.code (w.withPool e.pool)
  | .error fault e => .error fault (w.withPool e.pool)

end Lower

end Linkage
