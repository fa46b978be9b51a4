import Linkage.FunctionalInterface
import Linkage.Lowering.Context

/-!
# Call sites

A reference becomes a call site: an instruction that, when first run, asks the bootstrap method for an object that implements the
functional interface by the method the reference denotes.
-/

namespace Linkage

/-- How the implementing method is called through its handle. -/
inductive Invocation where
  | invokeVirtual
  | invokeStatic
  | invokeInterface
  deriving DecidableEq

namespace Invocation

/-- The number of a handle kind in the constant pool. -/
def number : Invocation → UInt8
  | invokeVirtual => 5
  | invokeStatic => 6
  | invokeInterface => 9

def name : Invocation → String
  | invokeVirtual => "InvokeVirtual"
  | invokeStatic => "InvokeStatic"
  | invokeInterface => "InvokeInterface"

end Invocation

/-- The method that a reference is bound to. -/
structure Binding where
  method : MethodDecl
  /-- The type that the handle names as owner: the enclosing type for a factory, else the target type. -/
  owner : JType
  ownerIsInterface : Bool
  exact : List Param
  /-- Whether the method is a factory. -/
  isCreation : Bool
  deriving DecidableEq

namespace Binding

/-- The method type that the interface method has at the call site. -/
def instantiatedDescriptor (b : Binding) : String :=
  methodDescriptor (b.exact.map (·.type)) b.method.result

def invocation (b : Binding) : Invocation :=
  if b.isCreation || b.method.isStatic then .invokeStatic
  else if b.ownerIsInterface then .invokeInterface
  else .invokeVirtual

/-- The receiver that the call site captures: the expression of the reference, unless the method needs none. -/
def captured? (b : Binding) : Target → Option Expr
  | .value e => if b.method.isStatic || b.isCreation then none else some e
  | .type _ _ => none

end Binding

/-- The descriptor of a call site: it takes what is captured and gives the functional interface. -/
def callSiteDescriptor (captured : Option JType) (interface : JType) : String :=
  methodDescriptor captured.toList interface

/-- What was written for a reference. -/
structure CallSite where
  /-- The name of the interface method. -/
  name : String
  descriptor : String
  invocation : Invocation
  /-- The name under which the pool holds the owner of the implementing method. -/
  owner : String
  implementationName : String
  implementationDescriptor : String
  /-- The method type of the interface method as declared. -/
  erasedDescriptor : String
  /-- The method type of the interface method at this call site. -/
  instantiatedDescriptor : String
  capturesReceiver : Bool
  bootstrapIndex : UInt16
  constantIndex : UInt16
  deriving DecidableEq

namespace CallSite

/-- The kind of the handle on the bootstrap method. -/
def bootstrapHandleKind : UInt8 :=
  Invocation.invokeStatic.number

/-- The call site of a binding, but for its indices. -/
def describe (classes : ClassTable) (target : Target) (f : FunctionalInterface) (b : Binding) : CallSite where
  name := f.method.name
  descriptor := callSiteDescriptor ((b.captured? target).map fun e => classes.canonicalType e.type) f.type
  invocation := b.invocation
  owner := b.owner.constantName
  implementationName := b.method.name
  implementationDescriptor := b.method.descriptor
  erasedDescriptor := f.method.descriptor
  instantiatedDescriptor := b.instantiatedDescriptor
  capturesReceiver := (b.captured? target).isSome
  bootstrapIndex := 0
  constantIndex := 0

/-- Adds the constants and the bootstrap method of a call site; gives the site with its indices. -/
def addConstants (bootstrap : BootstrapMethod) (ownerIsInterface : Bool) (c : CallSite) : ClassFile.Step CallSite := do
  let inInterface := (← get).isInterface
  let erased ← ClassFile.inPool (Pool.addMethodType c.erasedDescriptor)
  let implementation ← ClassFile.inPool
    (Pool.addMethodHandle c.invocation.number c.owner c.implementationName c.implementationDescriptor ownerIsInterface)
  let instantiated ← ClassFile.inPool (Pool.addMethodType c.instantiatedDescriptor)
  let handle ← ClassFile.inPool
    (Pool.addMethodHandle bootstrapHandleKind bootstrap.owner bootstrap.name bootstrap.descriptor inInterface)
  let bootstrapIndex ← ClassFile.addBootstrap handle [erased, implementation, instantiated]
  let constantIndex ← ClassFile.inPool (Pool.addInvokeDynamic bootstrapIndex c.name c.descriptor)
  return { c with bootstrapIndex := bootstrapIndex, constantIndex := constantIndex }

/-- Writes the call site of a binding: the receiver if one is captured, the constants, the instruction. -/
def link (ctx : Context) (target : Target) (f : FunctionalInterface) (b : Binding) : Lower CallSite := do
  let draft := describe (← get).classes target f b
  if let some e := b.captured? target then
    Lower.emit (ctx.emitReceiver e)
  let site ← Lower.inFile (addConstants ctx.settings.bootstrap b.ownerIsInterface draft)
  Lower.emit (Emit.inCode (CodeBuffer.invokeDynamic site.constantIndex (if site.capturesReceiver then 1 else 0)
    (.object f.type.constantName)))
  return site

end CallSite

end Linkage
