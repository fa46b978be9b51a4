import Std.Data.TreeMap
import Linkage.Declaration

/-!
# The class table

Every type that the program being compiled can name, by internal name. A name is looked up as registered (`get?`) or through its
aliases (`follow`, `underlying?`); following stops after `aliasLimit` steps, so that aliases of each other end it too.
-/

namespace Linkage

/-- The registered declarations, each under its own name. -/
structure ClassTable where
  entries : Std.TreeMap String ClassDecl
  name_eq : ∀ (key : String) (decl : ClassDecl), entries[key]? = some decl → decl.name = key := by simp

namespace ClassTable

/-- The table without a declaration. -/
def empty : ClassTable :=
  { entries := {} }

/-- The declaration registered under a name. -/
def get? (t : ClassTable) (name : String) : Option ClassDecl :=
  t.entries[name]?

/-- Registers a declaration under its name, in place of an earlier one. -/
def register (t : ClassTable) (decl : ClassDecl) : ClassTable where
  entries := t.entries.insert decl.name decl
  name_eq key d h := by
    rw [Std.TreeMap.getElem?_insert] at h
    split at h
    · rename_i hk
      rw [← Option.some.inj h]
      exact Std.LawfulEqCmp.eq_of_compare hk
    · exact t.name_eq key d h

/-- Registers declarations in order. -/
def registerAll (t : ClassTable) (decls : List ClassDecl) : ClassTable :=
  decls.foldl register t

/-- A registered declaration is found under its name, and all others as before. -/
theorem get?_register (t : ClassTable) (decl : ClassDecl) (name : String) :
    (t.register decl).get? name = if decl.name = name then some decl else t.get? name := by
  simp only [get?, register, Std.TreeMap.getElem?_insert, Std.LawfulEqCmp.compare_eq_iff_eq]

/-- A declaration is registered under its own name. -/
theorem name_of_get? {t : ClassTable} {name : String} {decl : ClassDecl} (h : t.get? name = some decl) : decl.name = name :=
  t.name_eq name decl h

/-- The table with a method added to a registered declaration; none when the name is unknown or declares the method already. -/
def addMethod? (t : ClassTable) (className : String) (m : MethodDecl) : Option ClassTable := do
  let decl ← t.get? className
  return t.register (← decl.addMethod? m)

/-- The number of steps after which following aliases is given up. -/
def aliasLimit : Nat :=
  64

/-- Where following the aliases of a name ends. -/
inductive Landing where
  | declared (decl : ClassDecl)
  | unknown
  | tooLong
  deriving DecidableEq

/-- Follows aliases from a declaration. Each step looks at one declaration, so the step that would look at the one behind the
last permitted alias is missing. -/
def followFrom (t : ClassTable) : Nat → ClassDecl → Landing
  | 0, _ => .tooLong
  | steps + 1, decl =>
    match decl.aliasOf with
    | none => .declared decl
    | some target =>
      match t.get? target with
      | none => .unknown
      | some next => t.followFrom steps next

/-- Follows the aliases of a name. -/
def follow (t : ClassTable) (name : String) : Landing :=
  match t.get? name with
  | none => .unknown
  | some decl => t.followFrom aliasLimit decl

/-- The declaration that a name stands for once its aliases are followed. -/
def underlying? (t : ClassTable) (name : String) : Option ClassDecl :=
  match t.follow name with
  | .declared decl => some decl
  | _ => none

/-- A name stands for the declaration at which its aliases end. -/
theorem underlying?_eq_some_iff {t : ClassTable} {name : String} {decl : ClassDecl} :
    t.underlying? name = some decl ↔ t.follow name = .declared decl := by
  unfold underlying?
  split <;> simp_all

/-- Following aliases ends at no alias, and at the declaration that is registered under its own name. -/
theorem followFrom_declared {t : ClassTable} {steps : Nat} {start decl : ClassDecl} (hs : t.get? start.name = some start)
    (h : t.followFrom steps start = .declared decl) : decl.aliasOf = none ∧ t.get? decl.name = some decl := by
  induction steps generalizing start with
  | zero => simp [followFrom] at h
  | succ steps ih =>
    unfold followFrom at h
    split at h
    · rename_i ha
      cases h
      exact ⟨ha, hs⟩
    · split at h
      · simp at h
      · rename_i next hn
        refine ih ?_ h
        rw [name_of_get? hn]
        exact hn

/-- A name stands for no alias. -/
theorem aliasOf_of_underlying? {t : ClassTable} {name : String} {decl : ClassDecl} (h : t.underlying? name = some decl) :
    decl.aliasOf = none ∧ t.get? decl.name = some decl := by
  have h' := underlying?_eq_some_iff.mp h
  unfold follow at h'
  split at h'
  · simp at h'
  · rename_i start hs
    exact followFrom_declared (by rw [name_of_get? hs]; exact hs) h'

/-- A name under which no alias is registered stands for what is registered there. -/
theorem underlying?_of_get? {t : ClassTable} {name : String} {decl : ClassDecl} (h : t.get? name = some decl)
    (ha : decl.aliasOf = none) : t.underlying? name = some decl := by
  simp [underlying?, follow, h, aliasLimit, followFrom, ha]

/-- The declaration that a name stands for stands for itself. -/
theorem underlying?_of_underlying? {t : ClassTable} {name : String} {decl : ClassDecl} (h : t.underlying? name = some decl) :
    t.underlying? decl.name = some decl := by
  obtain ⟨ha, hg⟩ := aliasOf_of_underlying? h
  exact underlying?_of_get? hg ha

/-- The name of the declaration that a name stands for, or the name itself when there is none. -/
def canonicalName (t : ClassTable) (name : String) : String :=
  match t.underlying? name with
  | some decl => decl.name
  | none => name

/-- A name is resolved to the name of what it stands for. -/
theorem canonicalName_of_underlying? {t : ClassTable} {name : String} {decl : ClassDecl} (h : t.underlying? name = some decl) :
    t.canonicalName name = decl.name := by
  rw [canonicalName, h]

/-- Whether a name stands for an interface. -/
def isInterface (t : ClassTable) (name : String) : Bool :=
  (t.underlying? name).any (·.isInterface)

/-- A type with every name in it replaced by the type that the name stands for; unknown names are kept. -/
def canonicalType (t : ClassTable) : JType → JType
  | .array c => .array (t.canonicalType c)
  | .named k n =>
    match t.underlying? n with
    | some decl => decl.type
    | none => .named k n
  | .prim p => .prim p
  | .void => .void

end ClassTable

end Linkage
