import Linkage.NameSupply
import Mathlib.Data.List.Basic
import Std.Data.String.ToNat

/-!
# Names of factories

A factory's name shows by its start that it is one, and its number can be read back from it.
-/

namespace Linkage

namespace NameSupply

/-- A name of the form that factories get. -/
def IsFactoryName (name : String) : Prop :=
  factoryStart.toList <+: name.toList

instance (name : String) : Decidable (IsFactoryName name) :=
  inferInstanceAs (Decidable (_ <+: _))

variable (method : Option String) (number : UInt32)

/-- The name of a factory looks like one. -/
theorem isFactoryName_factoryName : IsFactoryName (factoryName method number) := by
  unfold IsFactoryName factoryName
  cases method with
  | none => simp
  | some name => simp [List.append_assoc]

/-- The number stands behind the last dollar sign. -/
theorem exists_toList_factoryName :
    ∃ before, (factoryName method number).toList = before ++ '$' :: number.toNat.repr.toList := by
  have hstart : factoryStart.toList = "ctorRef".toList ++ ['$'] := by decide
  have hnumber : (toString number).toList = number.toNat.repr.toList := rfl
  unfold factoryName
  cases method with
  | none => exact ⟨"ctorRef".toList, by rw [String.toList_append, hstart, hnumber, List.append_assoc]; rfl⟩
  | some name =>
    refine ⟨factoryStart.toList ++ name.toList.filter fun c => c ≠ '<' && c ≠ '>', ?_⟩
    simp [hnumber]

/-- Behind its last dollar sign the name of a factory has its number. -/
theorem takeWhile_factoryName :
    (factoryName method number).toList.reverse.takeWhile (· ≠ '$') = number.toNat.repr.toList.reverse := by
  obtain ⟨before, hname⟩ := exists_toList_factoryName method number
  have hdigits : ∀ c ∈ number.toNat.repr.toList.reverse, decide (c ≠ '$') = true := by
    intro c hc
    rw [List.mem_reverse, Nat.toList_repr] at hc
    have hdigit := Nat.isDigit_of_mem_toDigits (by decide) (by decide) hc
    refine decide_eq_true ?_
    rintro rfl
    revert hdigit
    decide
  rw [hname, List.reverse_append, List.reverse_cons, List.append_assoc, List.takeWhile_append_of_pos hdigits]
  simp

variable {method number}

/-- Factories with different numbers have different names, whatever methods they are made in. -/
theorem number_eq_of_factoryName_eq {method' : Option String} {number' : UInt32}
    (h : factoryName method number = factoryName method' number') : number = number' := by
  have hdigits := takeWhile_factoryName method number
  rw [h, takeWhile_factoryName, List.reverse_inj, String.toList_inj, Nat.repr_inj] at hdigits
  exact (UInt32.toNat_inj.mp hdigits).symm

end NameSupply

end Linkage
