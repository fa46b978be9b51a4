import Linkage.ClassFile.Basic
import Linkage.Proofs.ClassFile.Encoding
import Linkage.Proofs.Pool.Growth

/-!
# Adding methods

A method is added with its name, its descriptor and its body, or not at all: when there is one of its name and descriptor, when its code is
too large, or when the pool is full (`ClassFile.outcome_addMethod`). The entry records them through indices of the pool, so it goes on
recording them while the pool is extended.
-/

namespace Linkage

/-- The entry is a method of the name, the descriptor and the body, and has no attribute but the body. -/
structure MethodEntry.Records (p : Pool) (m : MethodEntry) (name descriptor : String) (body : MethodBody) : Prop where
  name : p.utf8? m.nameIndex = some name
  descriptor : p.utf8? m.descriptorIndex = some descriptor
  stored : ∃ index, m.attributes = [⟨index, body.toBytes⟩] ∧ p.utf8? index = some MethodBody.attributeName
  size : body.code.length ≤ CodeBuffer.maxSize

/-- An entry goes on recording its method while the pool is extended. -/
theorem MethodEntry.Records.mono {p q : Pool} {m : MethodEntry} {name descriptor : String} {body : MethodBody}
    (h : m.Records p name descriptor body) (hpq : p.Extends q) : m.Records q name descriptor body :=
  ⟨hpq.utf8? h.name, hpq.utf8? h.descriptor, h.stored.imp fun _ hindex => ⟨hindex.1, hpq.utf8? hindex.2⟩, h.size⟩

namespace ClassFile

variable {f : ClassFile} {name descriptor : String}

/-- There is a method of the name and the descriptor. -/
def HasMethod (f : ClassFile) (name descriptor : String) : Prop :=
  ∃ m ∈ f.methods, f.pool.utf8? m.nameIndex = some name ∧ f.pool.utf8? m.descriptorIndex = some descriptor

/-- The entry of a method is found by the texts of its name and descriptor. -/
theorem isMethod_iff {m : MethodEntry} : f.isMethod name descriptor m = true ↔
    f.pool.utf8? m.nameIndex = some name ∧ f.pool.utf8? m.descriptorIndex = some descriptor := by
  rw [isMethod, Bool.and_eq_true, decide_eq_true_iff, decide_eq_true_iff]

/-- A method is found when there is one. -/
theorem isSome_findMethod?_iff : (f.findMethod? name descriptor).isSome = true ↔ f.HasMethod name descriptor := by
  simp only [findMethod?, Array.find?_isSome, isMethod_iff, HasMethod]

theorem not_hasMethod_of_empty (h : f.methods = #[]) : ¬ f.HasMethod name descriptor := by
  rintro ⟨m, hm, -⟩
  rw [h] at hm
  exact Array.not_mem_empty m hm

/-- The body of a method whose only attribute holds one. -/
theorem body?_eq_of_attributes {m : MethodEntry} {index : UInt16} {body : MethodBody}
    (hm : m.attributes = [⟨index, body.toBytes⟩]) (hindex : f.pool.utf8? index = some MethodBody.attributeName)
    (hsize : body.code.length ≤ CodeBuffer.maxSize) : f.body? m = some body := by
  simp [body?, hm, isBody, hindex, MethodBody.ofBytes?_toBytes body hsize]

/-- The body of a recorded method is read back. -/
theorem body?_of_records {m : MethodEntry} {body : MethodBody} (h : m.Records f.pool name descriptor body) : f.body? m = some body := by
  obtain ⟨index, hattributes, hindex⟩ := h.stored
  exact body?_eq_of_attributes hattributes hindex h.size

/-- A text takes one place of the pool at most, and where there is none nothing is changed. -/
theorem ensures_addUtf8 (handles : UInt8 → MemberKind → Prop) (bootstraps : Nat) (text : String) (hf : f.pool.Fits) :
    Ensures (inPool (Pool.addUtf8 text)) f
      (fun i g => g = { f with pool := g.pool } ∧ f.pool.Grows handles bootstraps g.pool ∧ g.pool.utf8? i = some text ∧
        g.pool.entries.size ≤ f.pool.entries.size + 1)
      (fun fault g => fault = .pool .full ∧ g = f ∧ Pool.capacity ≤ f.pool.entries.size) := by
  have hadds : Pool.Adds handles bootstraps (Pool.addUtf8 text) f.pool fun i p => p.utf8? i = some text := Pool.adds_addUtf8 text hf
  rw [inPool, ensures_focus]
  refine (Ensures.and hadds (Pool.ensures_add_size (.utf8 text) f.pool)).mono ?_ ?_
  · rintro i p ⟨⟨hgrows, htext⟩, hsize⟩
    exact ⟨rfl, hgrows, htext, hsize⟩
  · rintro ⟨⟩ p ⟨-, rfl, hfull⟩
    exact ⟨rfl, rfl, hfull⟩

/-- A method is added with its name, its descriptor and its body, or not at all: when there is one of its name and descriptor, else when its
code is too large, else when there is no room in the pool, which alone can leave constants behind. -/
theorem outcome_addMethod (handles : UInt8 → MemberKind → Prop) (bootstraps : Nat) (access : Access) (name descriptor : String)
    (code : CodeBuffer) (hf : f.pool.Fits) :
    Ensures (addMethod access name descriptor code) f
      (fun _ g => ¬ f.HasMethod name descriptor ∧ code.bytes.size ≤ CodeBuffer.maxSize ∧ ∃ m, m.access = access ∧
        m.Records g.pool name descriptor (.ofBuffer code) ∧ f.pool.Grows handles bootstraps g.pool ∧
        g.pool.entries.size ≤ f.pool.entries.size + 3 ∧ g = { f with pool := g.pool, methods := f.methods.push m })
      (fun fault g => f.HasMethod name descriptor ∧ fault = .duplicateMethod name descriptor ∧ g = f ∨
        ¬ f.HasMethod name descriptor ∧ CodeBuffer.maxSize < code.bytes.size ∧ fault = .code .tooLarge ∧ g = f ∨
        ¬ f.HasMethod name descriptor ∧ code.bytes.size ≤ CodeBuffer.maxSize ∧ fault = .pool .full ∧
          Pool.capacity < f.pool.entries.size + 3 ∧ f.pool.Grows handles bootstraps g.pool ∧ g = { f with pool := g.pool }) := by
  unfold addMethod
  rw [ensures_bind, ensures_get]
  split
  · rename_i hfound
    rw [ensures_bind, ensures_throw]
    exact .inl ⟨isSome_findMethod?_iff.mp hfound, rfl, rfl⟩
  · rename_i hfound
    have hnew : ¬ f.HasMethod name descriptor := fun h => hfound (isSome_findMethod?_iff.mpr h)
    rw [ensures_bind]
    by_cases hsize : code.bytes.size ≤ CodeBuffer.maxSize
    · rw [CodeBuffer.checkSize, if_pos hsize]
      refine ensures_answer_ok.mpr ?_
      rw [ensures_bind]
      -- each of the three texts can find the pool full
      refine (ensures_addUtf8 handles bootstraps name hf).mono ?_ ?_
      · rintro i f₁ ⟨e₁, h₁, hi, hsize₁⟩
        rw [ensures_bind]
        refine (ensures_addUtf8 handles bootstraps descriptor (h₁.fits hf)).mono ?_ ?_
        · rintro d f₂ ⟨e₂, h₂, hd, hsize₂⟩
          have h₁₂ := h₁.trans h₂
          rw [ensures_bind]
          refine (ensures_addUtf8 handles bootstraps MethodBody.attributeName (h₁₂.fits hf)).mono ?_ ?_
          · rintro a f₃ ⟨e₃, h₃, ha, hsize₃⟩
            have hsize₁₂₃ : f₃.pool.entries.size ≤ f.pool.entries.size + 3 := by omega
            rw [ensures_modify]
            refine ⟨hnew, hsize, ⟨access, i, d, [⟨a, (MethodBody.ofBuffer code).toBytes⟩]⟩, rfl, ⟨?_, ?_, ⟨a, rfl, ha⟩, hsize⟩,
              h₁₂.trans h₃, hsize₁₂₃, ?_⟩
            · exact (h₂.trans h₃).toExtends.utf8? hi
            · exact h₃.toExtends.utf8? hd
            · rw [e₃, e₂, e₁]
          · rintro _ _ ⟨rfl, rfl, hfull⟩
            exact .inr (.inr ⟨hnew, hsize, rfl, by omega, h₁₂, by rw [e₂, e₁]⟩)
        · rintro _ _ ⟨rfl, rfl, hfull⟩
          exact .inr (.inr ⟨hnew, hsize, rfl, by omega, h₁, e₁⟩)
      · rintro _ _ ⟨rfl, rfl, hfull⟩
        exact .inr (.inr ⟨hnew, hsize, rfl, by omega, .refl, rfl⟩)
    · rw [CodeBuffer.checkSize, if_neg hsize]
      refine ensures_answer_error.mpr ?_
      exact .inr (.inl ⟨hnew, Nat.lt_of_not_le hsize, rfl, rfl⟩)

/-- A method that is new and not too large is added where there is room for its constants. -/
theorem addMethod_eq_ok (access : Access) (code : CodeBuffer) (hnew : ¬ f.HasMethod name descriptor)
    (hsize : code.bytes.size ≤ CodeBuffer.maxSize) (hroom : f.pool.entries.size + 3 ≤ Pool.capacity) :
    ∃ g, addMethod access name descriptor code f = .ok () g := by
  have hf : f.pool.Fits := Nat.le_trans (Nat.le_add_right _ 3) hroom
  have hends := outcome_addMethod (fun _ _ => True) 0 access name descriptor code hf
  cases hrun : addMethod access name descriptor code f with
  | ok _ g => exact ⟨g, rfl⟩
  | error fault g =>
    rcases hends.of_error hrun with ⟨hfound, -⟩ | ⟨-, hlarge, -⟩ | ⟨-, -, -, hfull, -⟩
    · exact absurd hfound hnew
    · exact absurd hsize (Nat.not_le_of_lt hlarge)
    · exact absurd hroom (Nat.not_le_of_lt hfull)

end ClassFile

end Linkage
