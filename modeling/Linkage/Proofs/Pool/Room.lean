import Linkage.Proofs.Pool.View
import Linkage.Proofs.Step

/-!
# Room in the constant pool

A step adds no more entries than a number that is known beforehand, and where there is room for that many it does not fail. What such steps
add in a row is the sum of what each adds (`takes_bind`).
-/

namespace Linkage

namespace Pool

/-- `q` is `p` with at most `k` entries behind it. -/
def Within (k : Nat) (p q : Pool) : Prop :=
  p.Extends q ∧ q.entries.size ≤ p.entries.size + k

variable {j k : Nat} {p q r : Pool} {α β : Type}

namespace Within

/-- A pool takes no entries to stay what it is. -/
theorem refl (p : Pool) : Within 0 p p :=
  ⟨.refl p, Nat.le_refl _⟩

/-- Numbers of entries add up. -/
theorem trans (h : Within j p q) (h' : Within k q r) : Within (j + k) p r := by
  have hq := h.2
  have hr := h'.2
  exact ⟨h.1.trans h'.1, by omega⟩

/-- A larger number of entries is enough, too. -/
theorem mono (h : Within j p q) (hjk : j ≤ k) : Within k p q :=
  ⟨h.1, Nat.le_trans h.2 (Nat.add_le_add_left hjk _)⟩

end Within

/-- Where there is room for `k` entries the step does not fail, and adds no more than that. -/
def Takes (k : Nat) (step : Step α) : Prop :=
  ∀ p : Pool, p.entries.size + k ≤ capacity → Ensures step p (fun _ q => p.Within k q) fun _ _ => False

/-- One step after another takes what the two take together. -/
theorem takes_bind {x : Step α} {f : α → Step β} (hx : Takes j x) (hf : ∀ a, Takes k (f a)) : Takes (j + k) (x >>= f) := by
  intro p hroom
  rw [ensures_bind]
  refine (hx p (by omega)).mono ?_ (fun _ _ h => h)
  intro a q hpq
  have hsize := hpq.2
  exact (hf a q (by omega)).mono (fun _ _ hqr => hpq.trans hqr) (fun _ _ h => h)

/-- Adding a constant takes one entry at the most, and it fails only where there is none left. -/
theorem takes_add (c : Constant) : Takes 1 (add c) := by
  intro p hroom
  unfold Ensures add
  cases p.entries.findIdx? (· = c) with
  | some i => exact (Within.refl p).mono (Nat.zero_le 1)
  | none =>
    have hlt : p.entries.size < capacity := by omega
    simp only [hlt, if_true]
    exact ⟨extends_push p c, by simp⟩

/-- A text takes one entry. -/
theorem takes_addUtf8 (text : String) : Takes 1 (addUtf8 text) :=
  takes_add _

/-- A class takes an entry for itself and one for its name. -/
theorem takes_addClass (name : String) : Takes 2 (addClass name) :=
  takes_bind (takes_addUtf8 name) fun _ => takes_add _

/-- A string takes an entry for itself and one for its text. -/
theorem takes_addString (text : String) : Takes 2 (addString text) :=
  takes_bind (takes_addUtf8 text) fun _ => takes_add _

/-- A name with a descriptor takes three entries. -/
theorem takes_addNameAndType (name descriptor : String) : Takes 3 (addNameAndType name descriptor) :=
  takes_bind (takes_addUtf8 name) fun _ => takes_bind (takes_addUtf8 descriptor) fun _ => takes_add _

/-- A member takes an entry for itself, two for its owner and three for its name and descriptor. -/
theorem takes_addMember (kind : MemberKind) (owner name descriptor : String) : Takes 6 (addMember kind owner name descriptor) :=
  takes_bind (takes_addClass owner) fun _ => takes_bind (takes_addNameAndType name descriptor) fun _ => takes_add _

/-- A handle takes one entry more than its member. -/
theorem takes_addMethodHandle (kind : UInt8) (owner name descriptor : String) (onInterface : Bool) :
    Takes 7 (addMethodHandle kind owner name descriptor onInterface) :=
  takes_bind (takes_addMember _ owner name descriptor) fun _ => takes_add _

/-- A method type takes an entry for itself and one for its descriptor. -/
theorem takes_addMethodType (descriptor : String) : Takes 2 (addMethodType descriptor) :=
  takes_bind (takes_addUtf8 descriptor) fun _ => takes_add _

/-- A call site takes one entry more than its name and descriptor. -/
theorem takes_addInvokeDynamic (bootstrapIndex : UInt16) (name descriptor : String) :
    Takes 4 (addInvokeDynamic bootstrapIndex name descriptor) :=
  takes_bind (takes_addNameAndType name descriptor) fun _ => takes_add _

end Pool

end Linkage
