import Linkage.ClassTable.Walk
import Mathlib.Logic.Relation

/-!
# Steps up the hierarchy

One step up the hierarchy leads from a name to its parents, and a name lies below whatever steps lead to. A table is acyclic when its steps
lead to names of lower rank (`acyclic_of_rank`).
-/

namespace Linkage

namespace ClassTable

variable {t : ClassTable} {a b name : String}

/-- The second name stands one step above the first. -/
def Step (t : ClassTable) (a b : String) : Prop :=
  b ∈ t.parents a

/-- Steps up the hierarchy lead from the first name to the second. -/
def Reaches (t : ClassTable) : String → String → Prop :=
  Relation.ReflTransGen t.Step

/-- At least one step up the hierarchy leads from the first name to the second. -/
def Below (t : ClassTable) : String → String → Prop :=
  Relation.TransGen t.Step

/-- No name stands below itself. -/
def Acyclic (t : ClassTable) : Prop :=
  ∀ name, ¬ t.Below name name

/-- The walk of the supertypes of a name visits all of them before it would be cut off. -/
def Whole (t : ClassTable) (name : String) : Prop :=
  (t.supertypes name).length < hierarchyLimit

/-- A step leads to the superclass that the declaration behind a name states, or to what one of its interfaces stands for. -/
theorem step_iff :
    t.Step a b ↔ ∃ decl, t.underlying? a = some decl ∧ b ∈ decl.superclass.toList ++ decl.interfaces.map t.canonicalName := by
  unfold Step parents
  cases t.underlying? a <;> simp

/-- A table is acyclic when every step leads to a name of lower rank. -/
theorem acyclic_of_rank (rank : String → Nat) (h : ∀ a b, t.Step a b → rank b < rank a) : t.Acyclic := by
  have hlt : ∀ {a b}, t.Below a b → rank b < rank a := by
    intro a b hab
    induction hab with
    | single hab => exact h _ _ hab
    | tail _ hbc ih => exact Nat.lt_trans (h _ _ hbc) ih
  exact fun name hname => Nat.lt_irrefl _ (hlt hname)

/-- What is registered under a name is one of the declarations that were registered. -/
theorem mem_of_get?_registerAll {decls : List ClassDecl} {decl : ClassDecl} (h : (t.registerAll decls).get? name = some decl) :
    decl ∈ decls ∨ t.get? name = some decl := by
  induction decls generalizing t with
  | nil => exact .inr h
  | cons first rest ih =>
    rcases ih h with hrest | hfirst
    · exact .inl (List.mem_cons_of_mem first hrest)
    · rw [get?_register] at hfirst
      split at hfirst
      · rw [← Option.some.inj hfirst]
        exact .inl List.mem_cons_self
      · exact .inr hfirst

/-- What a table of declarations registers is one of them. -/
theorem mem_of_get?_empty_registerAll {decls : List ClassDecl} {decl : ClassDecl}
    (h : (empty.registerAll decls).get? name = some decl) : decl ∈ decls := by
  refine (mem_of_get?_registerAll h).resolve_right ?_
  simp [get?, empty]

/-- A name in a table of declarations stands for one of them. -/
theorem mem_of_underlying?_registerAll {decls : List ClassDecl} {decl : ClassDecl}
    (h : (empty.registerAll decls).underlying? name = some decl) : decl ∈ decls :=
  mem_of_get?_empty_registerAll (aliasOf_of_underlying? h).2

/-- A table of declarations is acyclic when every declaration is of higher rank than what it extends. -/
theorem acyclic_registerAll {decls : List ClassDecl} (rank : String → Nat)
    (h : ∀ decl ∈ decls, ∀ b ∈ decl.superclass.toList ++ decl.interfaces.map (empty.registerAll decls).canonicalName,
      rank ((empty.registerAll decls).canonicalName b) < rank decl.name) : (empty.registerAll decls).Acyclic := by
  refine acyclic_of_rank (fun n => rank ((empty.registerAll decls).canonicalName n)) ?_
  intro a b hab
  obtain ⟨decl, hdecl, hb⟩ := step_iff.mp hab
  rw [canonicalName_of_underlying? hdecl]
  exact h decl (mem_of_underlying?_registerAll hdecl) b hb

/-- Names that stand for the same declaration stand below the same. -/
theorem Below.congr_left {c : String} (h : t.underlying? a = t.underlying? b) (hac : t.Below a c) : t.Below b c := by
  obtain ⟨d, had, hdc⟩ := Relation.TransGen.head'_iff.mp hac
  have hbd : t.Step b d := by
    rw [step_iff, ← h]
    exact step_iff.mp had
  exact Relation.TransGen.head' hbd hdc

end ClassTable

end Linkage
