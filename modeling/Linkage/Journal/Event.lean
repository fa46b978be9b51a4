import Linkage.Lowering.Basic

/-!
# Events

What a journal says about a run: notable turns of a look-up, and the steps of lowering. A journal is read off a run afterwards; the
run itself keeps none, but for the instructions that a traced code buffer remembers.
-/

namespace Linkage

/-- How much an event matters. -/
inductive EventLevel where
  | debug
  | trace
  deriving DecidableEq

def EventLevel.name : EventLevel → String
  | debug => "DEBUG"
  | trace => "TRACE"

/-- A line of a journal. -/
inductive Event where
  | aliasesTooLong (name : String)
  | abstractCount (interface : String) (count : Nat)
  | notVisible (method : MethodDecl) (accessing : String)
  | noReceiver (method : MethodDecl)
  | incompatible (method : MethodDecl)
  | scored (method : MethodDecl) (score : Nat)
  | resolved (reference : Reference) (method : MethodDecl)
  | leftAside (reference : Reference) (reason : FallbackReason)
  | receiverUnused (reference : Reference)
  | synthesized (factory : MethodDecl) (maxStack maxLocals : UInt16)
  | linked (reference : Reference) (site : CallSite)
  | emitted (op : TracedOp)

namespace Event

def level : Event → EventLevel
  | aliasesTooLong _ => .debug
  | abstractCount _ _ => .trace
  | notVisible _ _ => .trace
  | noReceiver _ => .trace
  | incompatible _ => .trace
  | scored _ _ => .trace
  | resolved _ _ => .debug
  | leftAside _ _ => .debug
  | receiverUnused _ => .debug
  | synthesized _ _ _ => .debug
  | linked _ _ => .debug
  | emitted _ => .trace

/-- Why a reference is left to the general way, as a message says it. -/
def reasonText : FallbackReason → String
  | .missingInterface => "no functional interface type"
  | .notFunctional type => type.render ++ " is not a functional interface"
  | .missingInferredTypes => "no inferred parameter types"

def message : Event → String
  | aliasesTooLong name => s!"redirect chain from '{name}' exceeds {ClassTable.aliasLimit} steps"
  | abstractCount interface count => s!"{interface} declares {count} abstract methods"
  | notVisible method accessing => s!"{method.render} is not visible from {accessing}"
  | noReceiver method => s!"skipping {method.name}{method.descriptor}: no receiver argument"
  | incompatible method => s!"skipping {method.render}: incompatible parameters"
  | scored method score => s!"candidate {method.render} scores {score}"
  | resolved reference method => s!"{reference.render} resolved to {method.render}"
  | leftAside reference reason => s!"{reference.render} at {reference.span.render}: {reasonText reason}, using fallback"
  | receiverUnused reference => s!"{reference.render}: static target, receiver expression not evaluated"
  | synthesized factory maxStack maxLocals =>
    s!"synthesized {factory.render} for {factory.result.render}::new (max_stack={maxStack}, max_locals={maxLocals})"
  | linked reference site =>
    s!"{reference.render}: invokedynamic {site.name}{site.descriptor} -> {site.invocation.name} " ++
      s!"{site.owner}.{site.implementationName}{site.implementationDescriptor}"
  | emitted op => s!"emit@{op.offset} stack={op.depth}: {Opcode.mnemonic op.opcode}"

/-- An event as a line of a journal. -/
def render (e : Event) : String :=
  e.level.name ++ " " ++ e.message

end Event

end Linkage
