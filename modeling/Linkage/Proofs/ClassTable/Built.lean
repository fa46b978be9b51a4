import Linkage.Proofs.ClassTable.Hierarchy

/-!
# Tables built step by step

A table is built by registering declarations and adding methods to them. A method is told its declaring type when it joins one, so every
method of a table that was built so names the declaration it stands in (`ClassTable.Built.declaring_eq`).
-/

namespace Linkage

/-- Methods that join a declaration name it, and the rest of the declaration stays. -/
theorem ClassDecl.declaring_addMethods {c : ClassDecl} (hc : ∀ m ∈ c.methods, m.declaring = c.name) (methods : List MethodDecl) :
    (c.addMethods methods).name = c.name ∧ ∀ m ∈ (c.addMethods methods).methods, m.declaring = c.name := by
  induction methods generalizing c with
  | nil => exact ⟨rfl, hc⟩
  | cons m ms ih =>
    rw [addMethods, List.foldl_cons, ← addMethods]
    rcases c.addMethod?_cases m with ⟨-, hadd⟩ | ⟨-, hadd⟩
    · rw [hadd]
      exact ih hc
    · rw [hadd]
      refine ih (c := { c with methods := c.methods ++ [{ m with declaring := c.name }] }) fun n hn => ?_
      rcases List.mem_append.mp hn with hn | hn
      · exact hc n hn
      · rw [List.mem_singleton.mp hn]

namespace ClassTable

/-- Tables that come about by registering declarations, whose methods joined them one by one, and by adding methods to registered ones. -/
inductive Built : ClassTable → Prop where
  | empty : Built empty
  | register {t : ClassTable} (ht : Built t) {decl : ClassDecl} (hnone : decl.methods = []) (methods : List MethodDecl) :
    Built (t.register (decl.addMethods methods))
  | addMethod {t u : ClassTable} (ht : Built t) {className : String} {m : MethodDecl} (h : t.addMethod? className m = some u) : Built u

variable {t : ClassTable}

/-- Every method names the declaration in which it stands. -/
theorem Built.declaring_eq (ht : t.Built) {name : String} {c : ClassDecl} (hc : t.get? name = some c) :
    ∀ m ∈ c.methods, m.declaring = c.name := by
  induction ht generalizing name c with
  | empty => simp [get?, ClassTable.empty] at hc
  | @register t ht decl hnone methods ih =>
    rw [get?_register] at hc
    split at hc
    · obtain ⟨hname, hdeclaring⟩ := ClassDecl.declaring_addMethods (c := decl) (by simp [hnone]) methods
      rw [← Option.some.inj hc, hname]
      exact hdeclaring
    · exact ih hc
  | @addMethod t u ht className m h ih =>
    obtain ⟨d, hd, -, hu⟩ := get?_addMethod? h
    rw [hu] at hc
    split at hc
    · rw [← Option.some.inj hc]
      intro n hn
      rcases List.mem_append.mp hn with hn | hn
      · exact ih hd n hn
      · rw [List.mem_singleton.mp hn]
        exact (name_of_get? hd).symm
    · exact ih hc

/-- A member of a type is declared by a type that stands for itself. -/
theorem Built.underlying?_declaring (ht : t.Built) {typeName member : String} {m : MethodDecl} (hm : m ∈ t.members typeName member) :
    ∃ owner, t.underlying? m.declaring = some owner ∧ owner.name = m.declaring := by
  have hdeclared := (firstOfEach_sublist _ _).subset hm
  obtain ⟨owner, howner, hm⟩ := List.mem_flatMap.mp hdeclared
  obtain ⟨name, -, hunderlying⟩ := List.mem_filterMap.mp howner
  have hmethod : m ∈ owner.methods := (List.mem_filter.mp (List.mem_filter.mp hm).1).1
  have hdeclaring := ht.declaring_eq (aliasOf_of_underlying? hunderlying).2 m hmethod
  rw [hdeclaring]
  exact ⟨owner, underlying?_of_underlying? hunderlying, rfl⟩

end ClassTable

end Linkage
