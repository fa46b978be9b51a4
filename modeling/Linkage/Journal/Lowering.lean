import Linkage.Journal.Resolution

/-!
# Journals of lowering

The look-ups of a reference, the instructions that were written for it while code was traced, and what became of it.
-/

namespace Linkage

namespace Journal

/-- The instructions that were traced between two states of a buffer. -/
def emitted (before after : CodeBuffer) : Journal :=
  (after.traced.toList.drop before.traced.size).map .emitted

/-- Looking for what a factory calls: the class and its constructor. Nothing is looked up for an array. -/
def make (watch : Watch) (s : Scope) (type : JType) (exact : List Param) (span : Span) : Journal :=
  match type with
  | .named _ className =>
    let t := s.classes
    follow t className ++
      if (t.underlying? className).any fun decl => decl.isInterface || decl.isAbstract then []
      else constructorFor watch s className exact ++
        match s.constructorFor className exact span with
        | .ok _ => follow t className
        | .error _ => []
  | _ => []

/-- Making a factory. -/
def create (watch : Watch) (ctx : Context) (w : Workspace) (target : JType) (exact : List Param) (span : Span) : Journal :=
  let type := w.classes.canonicalType target
  let start := CodeBuffer.create 0 ctx.settings.tracing
  let written := (runStep (Factory.body (w.scope ctx.policy) type exact span) ⟨w.file.pool, start⟩).2.code
  canonicalType w.classes target ++
    (if CodeBuffer.slots (exact.map (·.type)) < UInt16.size then make watch (w.scope ctx.policy) type exact span else []) ++
    emitted start written ++
    match Factory.create ctx target exact span w with
    | .ok factory _ => [.synthesized factory written.maxDepth written.maxLocals]
    | .error _ _ => []

/-- Binding a reference. -/
def bind (watch : Watch) (ctx : Context) (w : Workspace) (r : Reference) (exact : List Param) : Journal :=
  if r.isCreation then
    match r.target with
    | .type type _ => create watch ctx w type exact r.span
    | .value _ => []
  else
    let s := w.scope ctx.policy
    resolve watch s r exact ++
      match s.resolve r exact with
      | .ok _ =>
        let owner := w.classes.canonicalType r.target.staticType
        canonicalType w.classes r.target.staticType ++ (owner.internalName?.map (follow w.classes)).getD []
      | .error _ => []

/-- Writing the call site of a binding. -/
def link (ctx : Context) (w : Workspace) (r : Reference) (f : FunctionalInterface) (b : Binding) : Journal :=
  let step := CallSite.link ctx r.target f b
  let receiver : Journal :=
    match r.target, b.captured? r.target with
    | .value _, none => [.receiverUnused r]
    | _, some e => canonicalType w.classes e.type
    | _, none => []
  receiver ++ emitted w.code (runStep step w).2.code ++
    match step w with
    | .ok site _ => [.linked r site]
    | .error _ _ => []

/-- Looking for the findings on a reference. -/
def findings (t : ClassTable) (r : Reference) : Journal :=
  (r.interface.map (findInterface t)).getD [] ++
    match r.findings t with
    | .error reason => [.leftAside r reason]
    | .ok _ => []

/-- Binding a reference whose exact parameters are known, and writing its call site. -/
def linkExact (watch : Watch) (ctx : Context) (w : Workspace) (r : Reference) (f : FunctionalInterface) (exact : List Param) :
    Journal :=
  bind watch ctx w r exact ++
    match (if r.isCreation then Lower.bindCreation ctx r exact else Lower.bindMember ctx r exact) w with
    | .ok binding w' => link ctx w' r f binding
    | .error _ _ => []

/-- Lowering a reference. -/
def lowering (watch : Watch) (ctx : Context) (w : Workspace) (r : Reference) : Journal :=
  match Lower.checkContext ctx w with
  | .error _ => []
  | .ok () =>
    findings w.classes r ++
      match r.findings w.classes with
      | .error _ => []
      | .ok (f, inferred) =>
        exactParams w.classes f inferred ++
          match f.exactParams w.classes inferred r.span with
          | .error _ => []
          | .ok exact => linkExact watch ctx w r f exact

end Journal

end Linkage
