import Linkage.Lowering.CallSite
import Linkage.Lowering.Factory

/-!
# Lowering references

A reference is lowered to a call site when the type checker has said which functional interface it implements and with which
parameter types; otherwise it is left to the general way of compiling lambdas.
-/

namespace Linkage

/-- Why a reference is left to the general way. -/
inductive FallbackReason where
  | missingInterface
  | notFunctional (type : JType)
  | missingInferredTypes
  deriving DecidableEq

/-- A reference that has become a call site. -/
structure Linked where
  binding : Binding
  site : CallSite
  /-- The factory that was made for it. -/
  factory : Option MethodDecl
  deriving DecidableEq

/-- What became of a reference. -/
inductive Outcome where
  | linked (result : Linked)
  | fallback (reason : FallbackReason)
  deriving DecidableEq

/-- What the type checker's findings on a reference make of it: the interface and the inferred types, or a reason to leave it. -/
def Reference.findings (r : Reference) (classes : ClassTable) :
    Except FallbackReason (FunctionalInterface × List (Option JType)) :=
  match r.interface with
  | none => .error .missingInterface
  | some type =>
    match FunctionalInterface.find? classes type with
    | none => .error (.notFunctional type)
    | some f =>
      match r.inferred with
      | none => .error .missingInferredTypes
      | some inferred => .ok (f, inferred)

namespace Lower

/-- Binds a reference to a constructor: makes its factory, which the enclosing type owns. -/
def bindCreation (ctx : Context) (r : Reference) (exact : List Param) : Lower Binding := do
  match r.target with
  | .value _ => throw (.shape .creationOfValue r.span)
  | .type type _ =>
    let factory ← Factory.create ctx type exact r.span
    let file := (← get).file
    let owner := if file.isInterface then JType.ofInterface file.name else JType.ofClass file.name
    return ⟨factory, owner, file.isInterface, exact, true⟩

/-- Binds a reference to a method: the one that it denotes, owned by the target type. -/
def bindMember (ctx : Context) (r : Reference) (exact : List Param) : Lower Binding := do
  let w ← get
  let method ← answer ((w.scope ctx.policy).resolve r exact)
  let owner := w.classes.canonicalType r.target.staticType
  return ⟨method, owner, owner.internalName?.any w.classes.isInterface, exact, false⟩

/-- Lowers a reference whose interface and inferred types are known. -/
def linkReference (ctx : Context) (r : Reference) (f : FunctionalInterface) (inferred : List (Option JType)) : Lower Linked := do
  let exact ← answer (f.exactParams (← get).classes inferred r.span)
  let binding ← if r.isCreation then bindCreation ctx r exact else bindMember ctx r exact
  let site ← CallSite.link ctx r.target f binding
  return ⟨binding, site, if r.isCreation then some binding.method else none⟩

/-- Lowers a reference. -/
def reference (ctx : Context) (r : Reference) : Lower Outcome := do
  match r.findings (← get).classes with
  | .error reason => return .fallback reason
  | .ok (f, inferred) => return .linked (← linkReference ctx r f inferred)

/-- Checks that lowering can begin: usable settings, and names for the type whose class file is written. -/
def checkContext (ctx : Context) (w : Workspace) : Except Fault Unit :=
  match ctx.settings.check with
  | .error fault => .error (.settings fault)
  | .ok () =>
    if w.file.name = w.names.owner then .ok () else .error (.defect (.foreignContext w.names.owner w.file.name) none)

/-- Lowers a reference, once the context has been checked. -/
def checkedReference (ctx : Context) (r : Reference) : Lower Outcome := do
  answer (checkContext ctx (← get))
  reference ctx r

end Lower

end Linkage
