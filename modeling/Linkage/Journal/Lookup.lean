import Linkage.Journal.Event

/-!
# Journals of look-ups

A look-up in the class table leaves a line for every name whose aliases it gives up on, each time that it follows them.
-/

namespace Linkage

/-- The events of a run in order. -/
abbrev Journal : Type :=
  List Event

namespace Journal

/-- Following the aliases of a name. -/
def follow (t : ClassTable) (name : String) : Journal :=
  if t.follow name = .tooLong then [.aliasesTooLong name] else []

/-- Finding what the names in a type stand for. -/
def canonicalType (t : ClassTable) : JType → Journal
  | .array c => canonicalType t c
  | .named _ n => follow t n
  | .prim _ => []
  | .void => []

/-- Climbing the superclass chain of a name. -/
def lineage (t : ClassTable) (name : String) : Journal :=
  follow t name ++ (t.lineage name).flatMap (follow t)

/-- Looking one step up from a name. -/
def parents (t : ClassTable) (name : String) : Journal :=
  follow t name ++ ((t.underlying? name).map fun decl => decl.interfaces.flatMap (follow t)).getD []

/-- Collecting the supertypes of a name. -/
def supertypes (t : ClassTable) (name : String) : Journal :=
  follow t name ++ (t.supertypes name).flatMap (parents t)

/-- Deciding whether one type is a subtype of another. -/
def isSubtype (t : ClassTable) (source target : JType) : Journal :=
  if source ≈ target then []
  else match source, target with
    | .array c, .array d => if c.isReference && d.isReference then isSubtype t c d else []
    | .named _ m, .named _ n => follow t n ++ if t.canonicalName n = WellKnown.object then [] else supertypes t m
    | _, _ => []

/-- Deciding whether a value may be passed. -/
def isAssignable (t : ClassTable) (source target : JType) : Journal :=
  isSubtype t source target ++
    if t.isSubtype source target then []
    else if source.isPrimitive && target.isReference then isSubtype t source.boxed target
    else []

/-- Deciding whether arguments may be passed, up to the first that may not. -/
def accepts (t : ClassTable) (args params : List Param) : Journal :=
  if args.length ≠ params.length then [] else slots args params
where
  /-- Deciding slot by slot. -/
  slots : List Param → List Param → Journal
    | arg :: args, param :: params =>
      isAssignable t arg.type param.type ++ if t.isAssignable arg.type param.type then slots args params else []
    | _, _ => []

/-- Collecting the methods of a name that a type has. -/
def members (t : ClassTable) (typeName : String) : Journal :=
  lineage t typeName ++ supertypes t typeName ++ (t.memberOrder typeName).flatMap (follow t)

/-- Deciding whether the language lets the code of a type use a method. -/
def isAccessible (t : ClassTable) (accessing : String) (m : MethodDecl) : Journal :=
  let owner := t.canonicalName m.declaring
  let user := t.canonicalName accessing
  follow t m.declaring ++ follow t accessing ++
    if m.visibility = .subclasses && packageName owner ≠ packageName user then supertypes t user else []

/-- What a policy has to say about the methods that it is shown. -/
abbrev Watch : Type :=
  ClassTable → String → List MethodDecl → Journal

/-- The access rules of the language report what they hide. -/
def watchLanguage : Watch := fun t accessing given =>
  given.flatMap fun m =>
    isAccessible t accessing m ++ if Linkage.isAccessible t accessing m then [] else [.notVisible m accessing]

/-- A policy that has nothing to say. -/
def watchNothing : Watch := fun _ _ _ =>
  []

/-- Looking for the functional interface that a type stands for. -/
def findInterface (t : ClassTable) (type : JType) : Journal :=
  match type.internalName? with
  | none => []
  | some name =>
    follow t name ++
      match t.underlying? name with
      | none => []
      | some decl =>
        if !decl.isInterface then []
        else
          let count := (FunctionalInterface.abstractMethods t decl.name).length
          supertypes t decl.name ++ (t.supertypes decl.name).flatMap (follow t) ++
            if count = 1 then [] else [.abstractCount decl.name count]

/-- Laying inferred types over declared parameters, up to the first that does not fit. -/
def slots (t : ClassTable) : List Param → List (Option JType) → Journal
  | _ :: ps, none :: ts => slots t ps ts
  | p :: ps, some inferred :: ts =>
    isSubtype t inferred.boxed p.type.boxed ++ if t.isSubtype inferred.boxed p.type.boxed then slots t ps ts else []
  | _, _ => []

/-- Specialising the parameters of an interface method. -/
def exactParams (t : ClassTable) (f : FunctionalInterface) (inferred : List (Option JType)) : Journal :=
  if f.method.params.length ≠ inferred.length then [] else slots t f.method.params inferred

end Journal

end Linkage
