import Linkage.ClassTable.Conversion
import Linkage.ClassTable.Members
import Linkage.Fault

/-!
# Functional interfaces

An interface is functional when, of all methods that it and its supertypes leave abstract, exactly one remains. A reference implements
that method, with its parameters specialised to the types inferred at the reference.
-/

namespace Linkage

/-- A functional interface, by the type it stands for, with its single abstract method. -/
structure FunctionalInterface where
  type : JType
  method : MethodDecl
  deriving DecidableEq

namespace FunctionalInterface

/-- The instance methods that the interfaces among the supertypes of a name declare, in breadth-first order of the interfaces. -/
def declaredMethods (classes : ClassTable) (name : String) : List MethodDecl :=
  ((classes.supertypes name).filterMap classes.underlying?).flatMap fun decl =>
    if decl.isInterface then decl.methods.filter fun m => !m.isStatic && !m.isConstructor else []

/-- The methods left to implement: of those with the same name and parameter types the first declared counts, whether it has a
body or not; public methods of the root class are never left. -/
def abstractMethods (classes : ClassTable) (name : String) : List MethodDecl :=
  (firstOfEach (fun m n => m.name = n.name && sameTypes m.params n.params) (declaredMethods classes name)).filter fun m =>
    m.isAbstract && !WellKnown.isObjectMethod m.name m.descriptor

/-- The functional interface that a type stands for; none when it is no interface or leaves another number of methods abstract. -/
def find? (classes : ClassTable) (type : JType) : Option FunctionalInterface := do
  let decl ← classes.underlying? (← type.internalName?)
  guard decl.isInterface
  match abstractMethods classes decl.name with
  | [method] => some ⟨decl.type, method⟩
  | _ => none

/-- The functional interface that a type stands for, where one is required. -/
def require (classes : ClassTable) (type : JType) (span : Span) : Except Fault FunctionalInterface :=
  match find? classes type with
  | some interface => .ok interface
  | none => .error (.notFunctional type span)

/-- The type of a parameter slot once an inferred type is laid over the declared one. Boxing apart, the inferred type must be a
subtype of the declared one; a slot that is declared primitive stays primitive and any other stays a reference. -/
def slotType (classes : ClassTable) (declared inferred : JType) (span : Span) : Except Fault JType :=
  if !classes.isSubtype inferred.boxed declared.boxed then .error (.inferredType inferred declared span)
  else match declared.isPrimitive, inferred with
    | false, .prim p => .ok (JType.prim p).boxed
    | true, .named k n => .ok (((JType.named k n).unboxed?.map JType.prim).getD declared)
    | true, .array _ => .ok declared
    | _, t => .ok t

/-- A parameter of the method with the type inferred for it, if one was. -/
def slot (classes : ClassTable) (span : Span) (declared : Param) : Option JType → Except Fault Param
  | none => .ok declared
  | some inferred => declared.retyped <$> slotType classes declared.type inferred span

/-- The parameters of the method with the inferred types laid over them. -/
def slots (classes : ClassTable) (span : Span) : List Param → List (Option JType) → Except Fault (List Param)
  | p :: ps, t :: ts => do
    let first ← slot classes span p t
    return first :: (← slots classes span ps ts)
  | _, _ => .ok []

/-- The exact parameters of a reference: those of the method, specialised slot by slot. -/
def exactParams (classes : ClassTable) (f : FunctionalInterface) (inferred : List (Option JType)) (span : Span) :
    Except Fault (List Param) :=
  if f.method.params.length ≠ inferred.length then
    .error (.defect (.inferredCount inferred.length f.type f.method.name f.method.params.length) (some span))
  else slots classes span f.method.params inferred

end FunctionalInterface

end Linkage
