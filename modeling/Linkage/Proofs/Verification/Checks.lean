import Linkage.Proofs.ClassFile.Addition
import Linkage.Verification.Basic

/-!
# What each check asks for

A check looks at one entry, bootstrap method or method, and at what stands behind its indices, but no deeper. There is one equation for each
check that says when it passes, whatever the entry is numbered, and together they say which class files pass the verifier
(`ClassFile.verify_eq_ok_iff`).
-/

namespace Linkage

variable {ε α : Type}

/-! ## Checks in a row -/

/-- Of two checks in a row both must pass. -/
theorem bind_eq_ok_iff {first : Except ε Unit} {second : Unit → Except ε Unit} :
    (first >>= second) = .ok () ↔ first = .ok () ∧ second () = .ok () := by
  cases first with
  | ok _ => exact ⟨fun h => ⟨rfl, h⟩, fun h => h.2⟩
  | error _ => exact ⟨nofun, fun h => nomatch h.1⟩

/-- A check of every member passes when each of them is good, if that is what it asks of a member of any number. -/
theorem checkEach_eq_ok_iff {check : Nat → α → Except ε Unit} {good : α → Prop} (hcheck : ∀ i x, check i x = .ok () ↔ good x) (i : Nat)
    (xs : List α) : checkEach check i xs = .ok () ↔ ∀ x ∈ xs, good x := by
  induction xs generalizing i with
  | nil => exact ⟨fun _ => nofun, fun _ => rfl⟩
  | cons x xs ih =>
    rw [checkEach, bind_eq_ok_iff, hcheck, ih, List.forall_mem_cons]

/-- An entry that fits stands at the index. -/
def Pool.Holds (p : Pool) (index : UInt16) (fits : Constant → Bool) : Prop :=
  ∃ c, p.get? index = some c ∧ fits c = true

/-- Each index inside an entry leads to an entry that fits its place there. -/
def Constant.Placed (f : ClassFile) : Constant → Prop
  | .utf8 _ => True
  | .integer _ => True
  | .classRef name => f.pool.Holds name isUtf8
  | .string text => f.pool.Holds text isUtf8
  | .member _ owner signature => f.pool.Holds owner isClass ∧ f.pool.Holds signature isNameAndType
  | .nameAndType name descriptor => f.pool.Holds name isUtf8 ∧ f.pool.Holds descriptor isUtf8
  | .methodHandle number reference =>
    ∃ kinds, handleMembers? f.majorVersion number = some kinds ∧ f.pool.Holds reference (isMemberOf kinds)
  | .methodType descriptor => f.pool.Holds descriptor isUtf8
  | .invokeDynamic bootstrap signature => bootstrap.toNat < f.bootstraps.size ∧ f.pool.Holds signature isNameAndType

/-- A bootstrap method is a handle, and its arguments can be loaded. -/
def Bootstrap.Placed (f : ClassFile) (b : Bootstrap) : Prop :=
  f.pool.Holds b.methodRef Constant.isMethodHandle ∧ ∀ a ∈ b.arguments, f.pool.Holds a Constant.isLoadable

/-- An abstract method has no body. Any other has one, which can be read, and the last byte of its code is a return. -/
def MethodEntry.HasBody (f : ClassFile) (m : MethodEntry) : Prop :=
  if m.access.isAbstract then m.attributes.countP f.isBody = 0
  else m.attributes.countP f.isBody = 1 ∧
    ∃ body opcode, f.body? m = some body ∧ body.code.getLast? = some opcode ∧ opcode ∈ Opcode.returns

/-- The flags of a method go together, it has a name and a descriptor, and a body unless it is abstract. -/
structure MethodEntry.Placed (f : ClassFile) (m : MethodEntry) : Prop where
  flags : m.access.conflicts f.isInterface = false
  name : f.pool.Holds m.nameIndex Constant.isUtf8
  descriptor : f.pool.Holds m.descriptorIndex Constant.isUtf8
  body : m.HasBody f

namespace ClassFile

variable {f : ClassFile} {place index : UInt16}

/-! ## The constant pool -/

/-- An index is as expected when it leads to an entry that fits. -/
theorem expect_eq_ok_iff {fits : Constant → Bool} : f.expect place index fits = .ok () ↔ f.pool.Holds index fits := by
  unfold expect Pool.Holds
  cases f.pool.get? index with
  | none => simp
  | some c => cases h : fits c <;> simp [h]

/-- The number of a bootstrap method is passed when it is in the table. -/
theorem checkBootstrapIndex_eq_ok_iff : f.checkBootstrapIndex index = .ok () ↔ index.toNat < f.bootstraps.size := by
  unfold checkBootstrapIndex
  split
  · rename_i hempty
    rw [Array.isEmpty_iff_size_eq_zero] at hempty
    simp [hempty]
  · split
    · rename_i hbeyond
      simpa using hbeyond
    · rename_i hwithin
      simpa using hwithin

/-- A constant passes when its indices lead to what their places ask for. -/
theorem checkConstant_eq_ok_iff (place : UInt16) (c : Constant) : f.checkConstant place c = .ok () ↔ c.Placed f := by
  cases c with
  | utf8 _ => exact iff_of_true rfl trivial
  | integer _ => exact iff_of_true rfl trivial
  | classRef name => exact expect_eq_ok_iff
  | string text => exact expect_eq_ok_iff
  | member kind owner signature => rw [checkConstant, bind_eq_ok_iff, expect_eq_ok_iff, expect_eq_ok_iff, Constant.Placed]
  | nameAndType name descriptor => rw [checkConstant, bind_eq_ok_iff, expect_eq_ok_iff, expect_eq_ok_iff, Constant.Placed]
  | methodHandle number reference =>
    rw [checkConstant, Constant.Placed]
    cases handleMembers? f.majorVersion number with
    | none => simp
    | some kinds => simp [expect_eq_ok_iff]
  | methodType descriptor => exact expect_eq_ok_iff
  | invokeDynamic bootstrap signature =>
    rw [checkConstant, bind_eq_ok_iff, checkBootstrapIndex_eq_ok_iff, expect_eq_ok_iff, Constant.Placed]

/-- An entry that fits stands under an index when the look-up finds one. -/
theorem holds_iff_any {fits : Constant → Bool} : f.pool.Holds index fits ↔ (f.pool.get? index).any fits = true := by
  unfold Pool.Holds
  cases f.pool.get? index <;> simp

/-- A bootstrap method passes when it is a handle with arguments that can be loaded. -/
theorem checkBootstrap_eq_ok_iff (place : Nat) (b : Bootstrap) : f.checkBootstrap place b = .ok () ↔ b.Placed f := by
  have harguments : (∀ a ∈ b.arguments, f.pool.Holds a Constant.isLoadable) ↔
      (b.arguments.find? fun a => !(f.pool.get? a).any Constant.isLoadable) = none := by
    simp [List.find?_eq_none, holds_iff_any]
  rw [Bootstrap.Placed, holds_iff_any, harguments, checkBootstrap]
  cases (f.pool.get? b.methodRef).any Constant.isMethodHandle with
  | false => exact iff_of_false nofun nofun
  | true =>
    cases b.arguments.find? fun a => !(f.pool.get? a).any Constant.isLoadable with
    | none => exact iff_of_true rfl ⟨rfl, rfl⟩
    | some a => exact iff_of_false nofun nofun

/-- A pool is passed when all entries and all bootstrap methods have their places. -/
theorem checkPool_eq_ok_iff :
    f.checkPool = .ok () ↔ (∀ c ∈ f.pool.entries, c.Placed f) ∧ ∀ b ∈ f.bootstraps, b.Placed f := by
  rw [checkPool, bind_eq_ok_iff, checkEach_eq_ok_iff fun i c => checkConstant_eq_ok_iff i.toUInt16 c,
    checkEach_eq_ok_iff checkBootstrap_eq_ok_iff]
  simp only [Array.mem_toList_iff]

/-! ## Methods -/

/-- A text is passed when it stands under its index. -/
theorem checkText_eq_ok_iff : f.checkText index = .ok () ↔ f.pool.Holds index Constant.isUtf8 := by
  unfold checkText Pool.Holds
  cases f.pool.get? index with
  | none => simp
  | some c => cases c <;> simp [Constant.isUtf8]

/-- A body is passed when its last byte is the opcode of a return. -/
theorem checkBody_eq_ok_iff {m : MethodEntry} : f.checkBody m = .ok () ↔
    ∃ body opcode, f.body? m = some body ∧ body.code.getLast? = some opcode ∧ opcode ∈ Opcode.returns := by
  unfold checkBody
  cases f.body? m with
  | none => simp
  | some body =>
    cases hlast : body.code.getLast? with
    | none => simp [hlast]
    | some opcode => by_cases hreturn : opcode ∈ Opcode.returns <;> simp [hlast, hreturn]

/-- The body of a method passes when there is one, or none for an abstract method, and it ends like a return. -/
theorem checkCode_eq_ok_iff {m : MethodEntry} : f.checkCode m = .ok () ↔ m.HasBody f := by
  unfold checkCode MethodEntry.HasBody
  cases m.access.isAbstract with
  | true => cases m.attributes.countP f.isBody <;> simp
  | false =>
    rw [← checkBody_eq_ok_iff]
    rcases m.attributes.countP f.isBody with - | - | count <;> simp

/-- A method that is not abstract and has nothing but a body of a permitted size has the body that is asked for when its last byte is a return. -/
theorem hasBody_iff_of_attributes {m : MethodEntry} {nameIndex : UInt16} {body : MethodBody} (hconcrete : m.access.isAbstract = false)
    (hm : m.attributes = [⟨nameIndex, body.toBytes⟩]) (hname : f.pool.utf8? nameIndex = some MethodBody.attributeName)
    (hsize : body.code.length ≤ CodeBuffer.maxSize) :
    m.HasBody f ↔ ∃ opcode ∈ body.code.getLast?, opcode ∈ Opcode.returns := by
  have hcount : m.attributes.countP f.isBody = 1 := by simp [hm, isBody, hname]
  simp [MethodEntry.HasBody, hconcrete, hcount, body?_eq_of_attributes hm hname hsize]

/-- A method is passed when it has its place. -/
theorem checkMethod_eq_ok_iff (m : MethodEntry) : f.checkMethod m = .ok () ↔ m.Placed f := by
  have hrest : (do f.checkText m.nameIndex; f.checkText m.descriptorIndex; f.checkCode m) = .ok () ↔
      f.pool.Holds m.nameIndex Constant.isUtf8 ∧ f.pool.Holds m.descriptorIndex Constant.isUtf8 ∧ m.HasBody f := by
    rw [bind_eq_ok_iff, bind_eq_ok_iff, checkText_eq_ok_iff, checkText_eq_ok_iff, checkCode_eq_ok_iff]
  unfold checkMethod
  cases hflags : m.access.conflicts f.isInterface with
  | true => exact iff_of_false nofun fun h => nomatch h.flags.symm.trans hflags
  | false => exact hrest.trans ⟨fun h => ⟨hflags, h.1, h.2.1, h.2.2⟩, fun h => ⟨h.name, h.descriptor, h.body⟩⟩

/-- Methods are passed when each has its place. -/
theorem checkMethods_eq_ok_iff : f.checkMethods = .ok () ↔ ∀ m ∈ f.methods, m.Placed f := by
  rw [checkMethods, checkEach_eq_ok_iff fun _ => checkMethod_eq_ok_iff]
  simp only [Array.mem_toList_iff]

/-! ## Class files -/

/-- A version is passed when it knows dynamic calls or there are none. -/
theorem checkVersion_eq_ok_iff : f.checkVersion = .ok () ↔ (dynamicVersion ≤ f.majorVersion ∨ f.bootstraps.isEmpty = true) := by
  unfold checkVersion
  by_cases hversion : f.majorVersion < dynamicVersion
  · cases hempty : f.bootstraps.isEmpty <;> simp [hversion, UInt16.not_le.mpr hversion]
  · simp [hversion, UInt16.not_lt.mp hversion]

/-- A class file passes the verifier when its version allows its call sites, and its constants, its bootstrap methods and its methods find what
they ask for. -/
theorem verify_eq_ok_iff : f.verify = .ok () ↔ (dynamicVersion ≤ f.majorVersion ∨ f.bootstraps.isEmpty = true) ∧
    (∀ c ∈ f.pool.entries, c.Placed f) ∧ (∀ b ∈ f.bootstraps, b.Placed f) ∧ ∀ m ∈ f.methods, m.Placed f := by
  rw [verify, bind_eq_ok_iff, bind_eq_ok_iff, mapError_eq_ok, mapError_eq_ok, checkVersion_eq_ok_iff, checkPool_eq_ok_iff,
    checkMethods_eq_ok_iff, and_assoc]

end ClassFile

end Linkage
