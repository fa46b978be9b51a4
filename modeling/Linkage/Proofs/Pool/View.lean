import Linkage.ClassFile.Pool

/-!
# Views of the constant pool

What an index leads to, read through the entries it names down to texts and numbers, and what a pool that only grows keeps: an entry
stays at its index, and so does everything read through it.
-/

namespace Linkage

/-- A handle on a method as the pool holds it: its number, and what kind of member of which name it is on. -/
structure Handle where
  number : UInt8
  kind : MemberKind
  owner : String
  name : String
  descriptor : String
  deriving DecidableEq

namespace Pool

/-- The kind of a member entry, and its owner, name and descriptor. -/
def kindAndMember? (p : Pool) (index : UInt16) : Option (MemberKind × String × String × String) :=
  match p.get? index with
  | some (.member kind _ _) => (p.member? index).map fun m => (kind, m)
  | _ => none

/-- The descriptor of a method-type entry. -/
def methodType? (p : Pool) (index : UInt16) : Option String :=
  match p.get? index with
  | some (.methodType descriptor) => p.utf8? descriptor
  | _ => none

/-- What a handle entry is a handle on. -/
def handle? (p : Pool) (index : UInt16) : Option Handle :=
  match p.get? index with
  | some (.methodHandle number reference) =>
    (p.kindAndMember? reference).map fun (kind, owner, name, descriptor) => ⟨number, kind, owner, name, descriptor⟩
  | _ => none

/-- The bootstrap index, name and descriptor of a dynamic call site. -/
def dynamic? (p : Pool) (index : UInt16) : Option (UInt16 × String × String) :=
  match p.get? index with
  | some (.invokeDynamic bootstrap signature) => (p.nameAndType? signature).map fun s => (bootstrap, s)
  | _ => none

variable {p q r : Pool} {index : UInt16}

/-! ## What each view reads -/

/-- An index at which an entry stands is one of the pool, and not zero. -/
theorem index_of_get? {c : Constant} (h : p.get? index = some c) : index ≠ 0 ∧ index.toNat ≤ p.entries.size := by
  unfold get? at h
  split at h
  · cases h
  · rename_i hzero
    have hlt := (Array.getElem?_eq_some_iff.mp h).1
    exact ⟨hzero, by omega⟩

/-- A text is read from its own entry. -/
theorem utf8?_eq_some_iff {text : String} : p.utf8? index = some text ↔ p.get? index = some (.utf8 text) := by
  unfold utf8?
  split <;> simp_all

/-- The name of a class is read through its entry. -/
theorem className?_eq_some_iff {name : String} :
    p.className? index = some name ↔ ∃ n, p.get? index = some (.classRef n) ∧ p.utf8? n = some name := by
  unfold className?
  split <;> simp_all

/-- A name and a descriptor are read through their entry. -/
theorem nameAndType?_eq_some_iff {name descriptor : String} :
    p.nameAndType? index = some (name, descriptor) ↔
      ∃ n d, p.get? index = some (.nameAndType n d) ∧ p.utf8? n = some name ∧ p.utf8? d = some descriptor := by
  unfold nameAndType?
  split <;> simp_all [Option.bind_eq_some_iff, and_assoc]

/-- A member is read through its owner and its name and descriptor. -/
theorem member?_eq_some_iff {owner name descriptor : String} :
    p.member? index = some (owner, name, descriptor) ↔
      ∃ kind o s, p.get? index = some (.member kind o s) ∧ p.className? o = some owner ∧
        p.nameAndType? s = some (name, descriptor) := by
  unfold member?
  split <;> simp_all [Option.bind_eq_some_iff, and_assoc]

/-- The kind of a member is that of its entry. -/
theorem kindAndMember?_eq_some_iff {kind : MemberKind} {owner name descriptor : String} :
    p.kindAndMember? index = some (kind, owner, name, descriptor) ↔
      ∃ o s, p.get? index = some (.member kind o s) ∧ p.className? o = some owner ∧
        p.nameAndType? s = some (name, descriptor) := by
  unfold kindAndMember?
  split
  · rename_i k o s h
    simp only [Option.map_eq_some_iff, Prod.mk.injEq, Prod.exists, member?_eq_some_iff, h, Option.some.injEq,
      Constant.member.injEq]
    grind
  · rename_i h
    constructor
    · intro hn
      cases hn
    · intro hview
      obtain ⟨o, s, hm, _⟩ := hview
      exact absurd hm (h kind o s)

/-- A method type is read through its entry. -/
theorem methodType?_eq_some_iff {descriptor : String} :
    p.methodType? index = some descriptor ↔ ∃ d, p.get? index = some (.methodType d) ∧ p.utf8? d = some descriptor := by
  unfold methodType?
  split <;> simp_all

/-- A handle is read through the member that it names. -/
theorem handle?_eq_some_iff {h : Handle} :
    p.handle? index = some h ↔
      ∃ m, p.get? index = some (.methodHandle h.number m) ∧
        p.kindAndMember? m = some (h.kind, h.owner, h.name, h.descriptor) := by
  unfold handle?
  split
  · rename_i number m hm
    obtain ⟨number', kind, owner, name, descriptor⟩ := h
    simp only [Option.map_eq_some_iff, Prod.exists, Handle.mk.injEq, hm, Option.some.injEq, Constant.methodHandle.injEq]
    grind
  · rename_i hm
    constructor
    · intro hn
      cases hn
    · intro hview
      obtain ⟨m, hk, _⟩ := hview
      exact absurd hk (hm h.number m)

/-- A call site is read through its name and descriptor. -/
theorem dynamic?_eq_some_iff {bootstrap : UInt16} {name descriptor : String} :
    p.dynamic? index = some (bootstrap, name, descriptor) ↔
      ∃ s, p.get? index = some (.invokeDynamic bootstrap s) ∧ p.nameAndType? s = some (name, descriptor) := by
  unfold dynamic?
  split
  · rename_i b s hs
    simp only [Option.map_eq_some_iff, Prod.mk.injEq, hs, Option.some.injEq, Constant.invokeDynamic.injEq]
    grind
  · rename_i hs
    constructor
    · intro hn
      cases hn
    · intro hview
      obtain ⟨s, hk, _⟩ := hview
      exact absurd hk (hs bootstrap s)

/-! ## Pools that extend each other -/

/-- The second pool begins with the entries of the first. -/
def Extends (p q : Pool) : Prop :=
  p.entries.toList <+: q.entries.toList

/-- A pool extends itself. -/
theorem Extends.refl (p : Pool) : p.Extends p :=
  List.prefix_refl _

/-- Extending goes on. -/
theorem Extends.trans (h : p.Extends q) (h' : q.Extends r) : p.Extends r :=
  List.IsPrefix.trans h h'

/-- A pool with an entry added at the end extends the pool. -/
theorem extends_push (p : Pool) (c : Constant) : p.Extends ⟨p.entries.push c⟩ := by
  simp [Extends]

namespace Extends

/-- An entry stays at its index. -/
theorem get? (h : p.Extends q) {c : Constant} (hc : p.get? index = some c) : q.get? index = some c := by
  unfold Pool.get? at hc ⊢
  split
  · rename_i h0
    simp [h0] at hc
  · rename_i h0
    rw [if_neg h0, ← Array.getElem?_toList] at hc
    rw [← Array.getElem?_toList]
    obtain ⟨t, ht⟩ := h
    rw [← ht, List.getElem?_append_left (List.getElem?_eq_some_iff.1 hc).1]
    exact hc

/-- A text is read in the same place of an extended pool. -/
theorem utf8? (h : p.Extends q) {text : String} (hs : p.utf8? index = some text) : q.utf8? index = some text :=
  utf8?_eq_some_iff.mpr (h.get? (utf8?_eq_some_iff.mp hs))

/-- A class is read in the same place of an extended pool. -/
theorem className? (h : p.Extends q) {name : String} (hs : p.className? index = some name) :
    q.className? index = some name := by
  obtain ⟨n, hn, ht⟩ := className?_eq_some_iff.mp hs
  exact className?_eq_some_iff.mpr ⟨n, h.get? hn, h.utf8? ht⟩

/-- A name with its descriptor is read in the same place of an extended pool. -/
theorem nameAndType? (h : p.Extends q) {s : String × String} (hs : p.nameAndType? index = some s) :
    q.nameAndType? index = some s := by
  obtain ⟨n, d, hn, h1, h2⟩ := nameAndType?_eq_some_iff.mp hs
  exact nameAndType?_eq_some_iff.mpr ⟨n, d, h.get? hn, h.utf8? h1, h.utf8? h2⟩

/-- A member is read in the same place of an extended pool. -/
theorem kindAndMember? (h : p.Extends q) {m : MemberKind × String × String × String} (hm : p.kindAndMember? index = some m) :
    q.kindAndMember? index = some m := by
  obtain ⟨o, s, hk, ho, hs⟩ := kindAndMember?_eq_some_iff.mp hm
  exact kindAndMember?_eq_some_iff.mpr ⟨o, s, h.get? hk, h.className? ho, h.nameAndType? hs⟩

/-- A method type is read in the same place of an extended pool. -/
theorem methodType? (h : p.Extends q) {d : String} (hd : p.methodType? index = some d) : q.methodType? index = some d := by
  obtain ⟨n, hn, ht⟩ := methodType?_eq_some_iff.mp hd
  exact methodType?_eq_some_iff.mpr ⟨n, h.get? hn, h.utf8? ht⟩

/-- A handle is read in the same place of an extended pool. -/
theorem handle? (h : p.Extends q) {k : Handle} (hk : p.handle? index = some k) : q.handle? index = some k := by
  obtain ⟨m, hm, hn⟩ := handle?_eq_some_iff.mp hk
  exact handle?_eq_some_iff.mpr ⟨m, h.get? hm, h.kindAndMember? hn⟩

/-- A call site is read in the same place of an extended pool. -/
theorem dynamic? (h : p.Extends q) {d : UInt16 × String × String} (hd : p.dynamic? index = some d) :
    q.dynamic? index = some d := by
  obtain ⟨s, hs, hn⟩ := dynamic?_eq_some_iff.mp hd
  exact dynamic?_eq_some_iff.mpr ⟨s, h.get? hs, h.nameAndType? hn⟩

end Extends

end Pool

end Linkage
