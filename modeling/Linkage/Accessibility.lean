import Linkage.ClassTable.Walk

/-!
# Access to members

Which members the code of a type may use. The rules of the language are one policy; a policy may also let everything or nothing
through.
-/

namespace Linkage

/-- The package part of an internal name; empty when the name has none. -/
def packageName (internalName : String) : String :=
  String.ofList ((internalName.toList.reverse.dropWhile (· ≠ '/')).drop 1).reverse

/-- The outermost class around a nested class, by its name. -/
def nestHost (internalName : String) : String :=
  String.ofList (internalName.toList.takeWhile (· ≠ '$'))

/-- Whether the language lets the code of `accessing` use a method. The members of a nest share what is private to them. -/
def isAccessible (classes : ClassTable) (accessing : String) (m : MethodDecl) : Bool :=
  let owner := classes.canonicalName m.declaring
  let user := classes.canonicalName accessing
  match m.visibility with
  | .everywhere => true
  | .nest => nestHost owner = nestHost user
  | .package => packageName owner = packageName user
  | .subclasses => packageName owner = packageName user || owner ∈ classes.supertypes user

/-- A choice of the methods that the code of a type may use; it adds none. -/
structure AccessPolicy where
  select : ClassTable → String → List MethodDecl → List MethodDecl
  mem_of_mem_select : ∀ (classes : ClassTable) (accessing : String) (given : List MethodDecl),
    ∀ m ∈ select classes accessing given, m ∈ given

namespace AccessPolicy

/-- The access rules of the language. -/
def language : AccessPolicy where
  select classes accessing given := given.filter (isAccessible classes accessing)
  mem_of_mem_select _ _ _ _ h := (List.mem_filter.mp h).1

/-- Every method may be used. -/
def everything : AccessPolicy where
  select _ _ given := given
  mem_of_mem_select _ _ _ _ h := h

/-- No method may be used. -/
def nothing : AccessPolicy where
  select _ _ _ := []
  mem_of_mem_select _ _ _ _ h := absurd h List.not_mem_nil

end AccessPolicy

end Linkage
