import Linkage.Proofs.Verification.Checks

/-!
# No index dangles

Every check looks one level deep, but all entries are checked, so what an index leads to has been checked in its turn. In a class file that
passes the verifier all chains of indices, from call sites, bootstrap methods and methods down to texts, lead somewhere (`ClassFile.Closed`),
whatever else the class file holds.
-/

namespace Linkage

/-- The members that the class-file format lets a handle of a number be on: fields for those that get and put, methods of classes for those
that call or create, and methods of interfaces for interface calls and, from version 52 on, for static and special ones. -/
def Handle.Allows (version : UInt16) (number : UInt8) : MemberKind → Prop
  | .field => 1 ≤ number ∧ number ≤ 4
  | .method => 5 ≤ number ∧ number ≤ 8
  | .interfaceMethod => number = 9 ∨ 52 ≤ version ∧ (number = 6 ∨ number = 7)

/-- The members that are accepted for a handle are those that the format allows. -/
theorem handleMembers?_iff {version : UInt16} {number : UInt8} {kind : MemberKind} :
    (∃ kinds, handleMembers? version number = some kinds ∧ kind ∈ kinds) ↔ Handle.Allows version number kind := by
  unfold handleMembers? oldestVersion
  split
  · cases kind <;> simp [Handle.Allows] <;> grind
  · split
    · cases kind <;> simp [Handle.Allows] <;> grind
    · split
      · by_cases hversion : 52 ≤ version <;> cases kind <;> simp [Handle.Allows, hversion] <;> grind
      · split
        · cases kind <;> simp [Handle.Allows] <;> grind
        · cases kind <;> simp [Handle.Allows] <;> grind

/-- Only the numbers from one to nine are those of handles. -/
theorem Handle.Allows.known {version : UInt16} {number : UInt8} {kind : MemberKind}
    (h : Handle.Allows version number kind) : 1 ≤ number ∧ number ≤ 9 := by
  cases kind <;> grind [Handle.Allows]

namespace ClassFile

/-- The number is one of a handle, and the index leads to a member that such a handle may be on, which resolves. -/
structure HandleResolves (f : ClassFile) (number : UInt8) (reference : UInt16) : Prop where
  known : 1 ≤ number ∧ number ≤ 9
  member : ∃ kind owner signature, f.pool.get? reference = some (.member kind owner signature) ∧ Handle.Allows f.majorVersion number kind
  resolves : (f.pool.member? reference).isSome

/-- The entry can be loaded, and what it refers to resolves. -/
def Loads (f : ClassFile) : Constant → Prop
  | .integer _ => True
  | .string text => (f.pool.utf8? text).isSome
  | .classRef name => (f.pool.utf8? name).isSome
  | .methodHandle number reference => f.HandleResolves number reference
  | .methodType descriptor => (f.pool.utf8? descriptor).isSome
  | _ => False

/-- The index leads to a handle that resolves. -/
def HasHandle (f : ClassFile) (index : UInt16) : Prop :=
  ∃ number reference, f.pool.get? index = some (.methodHandle number reference) ∧ f.HandleResolves number reference

/-- No look-up in the class file dangles. -/
structure Closed (f : ClassFile) : Prop where
  className : ∀ index name, f.pool.get? index = some (.classRef name) → (f.pool.className? index).isSome
  nameAndType : ∀ index name descriptor, f.pool.get? index = some (.nameAndType name descriptor) → (f.pool.nameAndType? index).isSome
  member : ∀ index kind owner signature, f.pool.get? index = some (.member kind owner signature) → (f.pool.member? index).isSome
  handle : ∀ number reference, .methodHandle number reference ∈ f.pool.entries → f.HandleResolves number reference
  callSite : ∀ bootstrap signature, .invokeDynamic bootstrap signature ∈ f.pool.entries →
    (∃ b, f.bootstraps[bootstrap.toNat]? = some b ∧ f.HasHandle b.methodRef) ∧ (f.pool.nameAndType? signature).isSome
  bootstrap : ∀ b ∈ f.bootstraps, f.HasHandle b.methodRef ∧ ∀ a ∈ b.arguments, ∃ c, f.pool.get? a = some c ∧ f.Loads c
  method : ∀ m ∈ f.methods, (f.pool.utf8? m.nameIndex).isSome ∧ (f.pool.utf8? m.descriptorIndex).isSome ∧
    (m.access.isAbstract = false → (f.body? m).isSome)

variable {f : ClassFile} {index : UInt16}

/-! ## What stands at an index -/

/-- What is found under an index is an entry of the pool. -/
theorem mem_of_get? {c : Constant} (h : f.pool.get? index = some c) : c ∈ f.pool.entries := by
  unfold Pool.get? at h
  split at h
  · cases h
  · exact Array.mem_of_getElem? h

/-- A text that is asked for is there. -/
theorem isSome_utf8? (h : f.pool.Holds index Constant.isUtf8) : (f.pool.utf8? index).isSome := by
  obtain ⟨c, hget, hfits⟩ := h
  cases c with
  | utf8 text => exact Option.isSome_iff_exists.mpr ⟨text, Pool.utf8?_eq_some_iff.mpr hget⟩
  | _ => cases hfits

section Placed

variable (hplaced : ∀ c ∈ f.pool.entries, c.Placed f)

include hplaced

/-- A class that the verifier has passed has its name in the pool. -/
theorem isSome_className? (h : f.pool.Holds index Constant.isClass) : (f.pool.className? index).isSome := by
  obtain ⟨c, hget, hfits⟩ := h
  cases c with
  | classRef name =>
    obtain ⟨text, htext⟩ := Option.isSome_iff_exists.mp (isSome_utf8? (hplaced _ (mem_of_get? hget)))
    exact Option.isSome_iff_exists.mpr ⟨text, Pool.className?_eq_some_iff.mpr ⟨name, hget, htext⟩⟩
  | _ => cases hfits

/-- A name and descriptor that the verifier has passed are in the pool. -/
theorem isSome_nameAndType? (h : f.pool.Holds index Constant.isNameAndType) : (f.pool.nameAndType? index).isSome := by
  obtain ⟨c, hget, hfits⟩ := h
  cases c with
  | nameAndType name descriptor =>
    obtain ⟨hname, hdescriptor⟩ := hplaced _ (mem_of_get? hget)
    obtain ⟨n, hn⟩ := Option.isSome_iff_exists.mp (isSome_utf8? hname)
    obtain ⟨d, hd⟩ := Option.isSome_iff_exists.mp (isSome_utf8? hdescriptor)
    exact Option.isSome_iff_exists.mpr ⟨(n, d), Pool.nameAndType?_eq_some_iff.mpr ⟨name, descriptor, hget, hn, hd⟩⟩
  | _ => cases hfits

/-- A member that the verifier has passed has its owner, its name and its descriptor in the pool. -/
theorem isSome_member? {kind : MemberKind} {owner signature : UInt16} (h : f.pool.get? index = some (.member kind owner signature)) :
    (f.pool.member? index).isSome := by
  obtain ⟨howner, hsignature⟩ := hplaced _ (mem_of_get? h)
  obtain ⟨o, ho⟩ := Option.isSome_iff_exists.mp (isSome_className? hplaced howner)
  obtain ⟨⟨n, d⟩, hs⟩ := Option.isSome_iff_exists.mp (isSome_nameAndType? hplaced hsignature)
  exact Option.isSome_iff_exists.mpr ⟨(o, n, d), Pool.member?_eq_some_iff.mpr ⟨kind, owner, signature, h, ho, hs⟩⟩

end Placed

/-! ## What passes the checks -/

section Placed

variable (hplaced : ∀ c ∈ f.pool.entries, c.Placed f)

include hplaced

/-- A handle that the verifier has passed names a member of a kind that fits. -/
theorem handleResolves_of_mem {number : UInt8} {reference : UInt16} (h : .methodHandle number reference ∈ f.pool.entries) :
    f.HandleResolves number reference := by
  obtain ⟨kinds, hkinds, c, hget, hfits⟩ := hplaced _ h
  cases c with
  | member kind owner signature =>
    have hallows : Handle.Allows f.majorVersion number kind :=
      handleMembers?_iff.mp ⟨kinds, hkinds, by simpa [Constant.isMemberOf] using hfits⟩
    exact ⟨hallows.known, ⟨kind, owner, signature, hget, hallows⟩, isSome_member? hplaced hget⟩
  | _ => cases hfits

/-- Where the verifier has passed a handle, there is one that resolves. -/
theorem hasHandle_of_holds (h : f.pool.Holds index Constant.isMethodHandle) : f.HasHandle index := by
  obtain ⟨c, hget, hfits⟩ := h
  cases c with
  | methodHandle number reference => exact ⟨number, reference, hget, handleResolves_of_mem hplaced (mem_of_get? hget)⟩
  | _ => cases hfits

/-- What can be loaded has been checked in its turn. -/
theorem exists_loads (h : f.pool.Holds index Constant.isLoadable) : ∃ c, f.pool.get? index = some c ∧ f.Loads c := by
  obtain ⟨c, hget, hfits⟩ := h
  have hc := hplaced c (mem_of_get? hget)
  refine ⟨c, hget, ?_⟩
  cases c with
  | integer value => trivial
  | string text => exact isSome_utf8? hc
  | classRef name => exact isSome_utf8? hc
  | methodHandle number reference => exact handleResolves_of_mem hplaced (mem_of_get? hget)
  | methodType descriptor => exact isSome_utf8? hc
  | _ => cases hfits

end Placed

/-- In a class file that passes the verifier no look-up dangles. -/
theorem closed_of_verify (h : f.verify = .ok ()) : f.Closed := by
  obtain ⟨-, hconstants, hbootstraps, hmethods⟩ := verify_eq_ok_iff.mp h
  refine ⟨?_, ?_, ?_, ?_, ?_, ?_, ?_⟩
  · intro index name hget
    exact isSome_className? hconstants ⟨_, hget, rfl⟩
  · intro index name descriptor hget
    exact isSome_nameAndType? hconstants ⟨_, hget, rfl⟩
  · intro index kind owner signature hget
    exact isSome_member? hconstants hget
  · intro number reference hmem
    exact handleResolves_of_mem hconstants hmem
  · intro bootstrap signature hmem
    obtain ⟨hindex, hsignature⟩ := hconstants _ hmem
    refine ⟨⟨_, Array.getElem?_eq_getElem hindex, ?_⟩, isSome_nameAndType? hconstants hsignature⟩
    exact hasHandle_of_holds hconstants (hbootstraps _ (Array.getElem_mem hindex)).1
  · intro b hb
    obtain ⟨hhandle, harguments⟩ := hbootstraps b hb
    exact ⟨hasHandle_of_holds hconstants hhandle, fun a ha => exists_loads hconstants (harguments a ha)⟩
  · intro m hm
    obtain ⟨-, hname, hdescriptor, hbody⟩ := hmethods m hm
    refine ⟨isSome_utf8? hname, isSome_utf8? hdescriptor, fun hconcrete => ?_⟩
    rw [MethodEntry.HasBody, hconcrete, if_neg Bool.false_ne_true] at hbody
    obtain ⟨-, body, -, hread, -⟩ := hbody
    exact Option.isSome_iff_exists.mpr ⟨body, hread⟩

/-- A class file with a call site, whose bootstrap method is a static method of an interface and takes all sorts of arguments, and with an
abstract method and another one. -/
def sampleClosed : ClassFile where
  name := "p/Main"
  isInterface := false
  majorVersion := 52
  pool := ⟨#[.utf8 "p/Api", .classRef 1, .utf8 "make", .utf8 "()V", .nameAndType 3 4, .member .interfaceMethod 2 5, .methodHandle 6 6,
    .utf8 "I", .nameAndType 3 8, .member .field 2 9, .methodHandle 2 10, .methodType 4, .string 3, .integer 7, .invokeDynamic 0 5,
    .utf8 MethodBody.attributeName]⟩
  bootstraps := #[⟨7, [11, 12, 13, 14, 2]⟩]
  methods := #[⟨.accPublic ||| .accAbstract, 3, 4, []⟩, ⟨.accStatic, 8, 4, [⟨16, (⟨0, 0, [Opcode.vreturn]⟩ : MethodBody).toBytes⟩]⟩]

theorem closed_of_verify_sampleClosed : sampleClosed.verify = .ok () ∧ sampleClosed.Closed := by
  have htoOption : sampleClosed.verify.toOption = some () := by decide +kernel
  have hverify : sampleClosed.verify = .ok () := by
    cases hrun : sampleClosed.verify with
    | ok _ => rfl
    | error flaw =>
      rw [hrun] at htoOption
      cases htoOption
  exact ⟨hverify, closed_of_verify hverify⟩

end ClassFile

end Linkage
