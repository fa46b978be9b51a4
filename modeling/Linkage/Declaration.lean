import Linkage.Access
import Linkage.Descriptor

/-!
# Declarations

What a type declares: its place in the hierarchy and its methods. A name may also be declared as an alias of another name.
-/

namespace Linkage

/-- A formal parameter with its type and the type it was first declared with. -/
structure Param where
  name : String
  type : JType
  origin : JType
  deriving DecidableEq

namespace Param

/-- A parameter that still has the type it was declared with. -/
def ofType (name : String) (type : JType) : Param :=
  ⟨name, type, type⟩

/-- The parameter of the same name that is declared with another type. -/
def retyped (p : Param) (type : JType) : Param :=
  ofType p.name type

end Param

/-- A method or constructor. -/
structure MethodDecl where
  name : String
  params : List Param
  result : JType
  access : Access := .accPublic
  /-- The internal name of the declaring type, set when the method joins one. -/
  declaring : String := ""
  deriving DecidableEq

namespace MethodDecl

/-- A public constructor. -/
def constructor (params : List Param) : MethodDecl :=
  { name := WellKnown.constructor, params := params, result := .void }

/-- The types of the parameters in order. -/
def paramTypes (m : MethodDecl) : List JType :=
  m.params.map (·.type)

def descriptor (m : MethodDecl) : String :=
  methodDescriptor m.paramTypes m.result

def isStatic (m : MethodDecl) : Bool :=
  m.access.isStatic

def isAbstract (m : MethodDecl) : Bool :=
  m.access.isAbstract

def isConstructor (m : MethodDecl) : Bool :=
  m.name = WellKnown.constructor

def visibility (m : MethodDecl) : Visibility :=
  m.access.visibility

/-- A method as a message shows it: declaring type, name and descriptor. -/
def render (m : MethodDecl) : String :=
  m.declaring ++ "." ++ m.name ++ m.descriptor

end MethodDecl

/-- Parameter lists of the same length and, slot by slot, the same types. -/
def sameTypes : List Param → List Param → Bool
  | [], [] => true
  | p :: ps, q :: qs => p.type ≈ q.type && sameTypes ps qs
  | _, _ => false

/-- Parameter lists have the same types when their types agree up to kinds. -/
theorem sameTypes_iff {ps qs : List Param} :
    sameTypes ps qs = true ↔ ps.map (fun p => p.type.untag) = qs.map (fun q => q.type.untag) := by
  induction ps generalizing qs with
  | nil => cases qs <;> simp [sameTypes]
  | cons p ps ih =>
    cases qs with
    | nil => simp [sameTypes]
    | cons q qs =>
      simp only [sameTypes, Bool.and_eq_true, decide_eq_true_eq, ih, JType.equiv_def, List.map_cons,
        List.cons.injEq]

/-- Parameters have the types that they have. -/
theorem sameTypes_refl (ps : List Param) : sameTypes ps ps = true :=
  sameTypes_iff.mpr rfl

/-- Having the same types goes both ways. -/
theorem sameTypes_symm {ps qs : List Param} (h : sameTypes ps qs = true) : sameTypes qs ps = true :=
  sameTypes_iff.mpr (sameTypes_iff.mp h).symm

/-- Having the same types goes on from one list to the next. -/
theorem sameTypes_trans {ps qs rs : List Param} (h : sameTypes ps qs = true) (h' : sameTypes qs rs = true) :
    sameTypes ps rs = true :=
  sameTypes_iff.mpr ((sameTypes_iff.mp h).trans (sameTypes_iff.mp h'))

/-- What is registered under a name: a class, an interface, or an alias of another name. -/
structure ClassDecl where
  name : String
  superclass : Option String := some WellKnown.object
  interfaces : List String := []
  access : Access := .accPublic
  methods : List MethodDecl := []
  /-- The name that an alias stands for. -/
  aliasOf : Option String := none
  deriving DecidableEq

namespace ClassDecl

/-- A public class that extends the root class. -/
def ofClass (name : String) : ClassDecl :=
  { name := name }

/-- A public interface. -/
def ofInterface (name : String) : ClassDecl :=
  { name := name, access := .accPublic ||| .accInterface ||| .accAbstract }

/-- An alias of another name. -/
def ofAlias (name target : String) : ClassDecl :=
  { name := name, superclass := none, aliasOf := some target }

def isInterface (c : ClassDecl) : Bool :=
  c.access.isInterface

def isAbstract (c : ClassDecl) : Bool :=
  c.access.isAbstract

/-- The type that the declaration declares. -/
def type (c : ClassDecl) : JType :=
  if c.isInterface then .ofInterface c.name else .ofClass c.name

/-- Whether a method of this name and descriptor is declared. -/
def declares (c : ClassDecl) (name descriptor : String) : Bool :=
  c.methods.any fun m => m.name = name && m.descriptor = descriptor

/-- The declaration with a method added at the end; none when its name and descriptor are declared already. -/
def addMethod? (c : ClassDecl) (m : MethodDecl) : Option ClassDecl :=
  if c.declares m.name m.descriptor then none
  else some { c with methods := c.methods ++ [{ m with declaring := c.name }] }

/-- The declaration with the methods added one by one, those already declared left out. -/
def addMethods (c : ClassDecl) (methods : List MethodDecl) : ClassDecl :=
  methods.foldl (fun c m => (c.addMethod? m).getD c) c

/-- The methods of a name in declaration order. -/
def overloads (c : ClassDecl) (name : String) : List MethodDecl :=
  c.methods.filter (·.name = name)

end ClassDecl

end Linkage
