import Linkage.Proofs.ClassFile.Addition
import Linkage.Verification.Basic

/-!
# Growth of a class file

Lowering changes a class file in three ways only: it pushes a constant, a bootstrap method or a method, each of which must find in
the class file what it refers to. `ClassFile.Grows` is the run of such pushes, and what a whole run of lowerings keeps is proved from
it by one induction.
-/

namespace Linkage

/-- The members that a handle of a number may be on, in the versions that are written. -/
def Handle.Permitted (number : UInt8) (kind : MemberKind) : Prop :=
  ∃ kinds, handleMembers? oldestVersion number = some kinds ∧ kind ∈ kinds

/-- What a bootstrap method must find in the pool: itself as a handle, and its three arguments, each as a handle or a method type. -/
structure Bootstrap.Admitted (p : Pool) (b : Bootstrap) : Prop where
  handle : ∃ h, p.handle? b.methodRef = some h
  arguments : ∀ a ∈ b.arguments, (∃ h, p.handle? a = some h) ∨ ∃ d, p.methodType? a = some d
  count : b.arguments.length = 3

/-- What a method must be to join a class file: one with flags that go together, a name, a descriptor, and as its only attribute a
body that fits and ends in a return. -/
structure MethodEntry.Admitted (f : ClassFile) (m : MethodEntry) : Prop where
  flags : m.access.conflicts f.isInterface = false
  concrete : m.access.isAbstract = false
  name : ∃ s, f.pool.utf8? m.nameIndex = some s
  descriptor : ∃ s, f.pool.utf8? m.descriptorIndex = some s
  body : ∃ (index : UInt16) (body : MethodBody), m.attributes = [⟨index, body.toBytes⟩] ∧
    f.pool.utf8? index = some MethodBody.attributeName ∧ body.code.length ≤ CodeBuffer.maxSize ∧
    ∃ opcode ∈ Opcode.returns, body.code.getLast? = some opcode

namespace ClassFile

variable {f g h : ClassFile}

/-- The tables of the class file are within their limits, so that an index has room for the place of every entry. -/
structure Fits (f : ClassFile) : Prop where
  pool : f.pool.Fits
  bootstraps : f.bootstraps.size ≤ maxBootstraps

/-- The class file with another pool. -/
def withPool (f : ClassFile) (p : Pool) : ClassFile :=
  { f with pool := p }

/-- `f.Grows g`: `g` is `f` with admitted constants, bootstrap methods and methods pushed one at a time. -/
inductive Grows (f : ClassFile) : ClassFile → Prop where
  | refl : Grows f f
  | constant {g : ClassFile} {c : Constant} : Grows f g → g.pool.entries.size < Pool.capacity → c ∉ g.pool.entries →
      c.Admitted Handle.Permitted g.bootstraps.size g.pool → Grows f (g.withPool ⟨g.pool.entries.push c⟩)
  | bootstrap {g : ClassFile} {b : Bootstrap} : Grows f g → g.bootstraps.size < maxBootstraps → b ∉ g.bootstraps →
      b.Admitted g.pool → Grows f { g with bootstraps := g.bootstraps.push b }
  | method {g : ClassFile} {m : MethodEntry} : Grows f g → m.Admitted g → Grows f { g with methods := g.methods.push m }

namespace Grows

/-- Growth goes on. -/
theorem trans (hfg : f.Grows g) (hgh : g.Grows h) : f.Grows h := by
  induction hgh with
  | refl => exact hfg
  | constant _ hroom hnew hc ih => exact constant ih hroom hnew hc
  | bootstrap _ hroom hnew hb ih => exact bootstrap ih hroom hnew hb
  | method _ hm ih => exact method ih hm

/-- A class file grows with its pool. -/
theorem ofPool {p : Pool} (hp : f.pool.Grows Handle.Permitted f.bootstraps.size p) : f.Grows (f.withPool p) := by
  induction hp with
  | refl => exact refl
  | push _ hroom hnew hc ih => exact constant ih hroom hnew hc

/-- The pool of a class file that has grown extends what it was. -/
theorem pool (hfg : f.Grows g) : f.pool.Extends g.pool := by
  induction hfg with
  | refl => exact Pool.Extends.refl _
  | constant _ _ _ _ ih => exact ih.trans (Pool.extends_push _ _)
  | bootstrap _ _ _ _ ih => exact ih
  | method _ _ ih => exact ih

/-- The table of a class file that has grown starts with what it was. -/
theorem bootstraps (hfg : f.Grows g) : f.bootstraps.toList <+: g.bootstraps.toList := by
  induction hfg with
  | refl => exact List.prefix_refl _
  | constant _ _ _ _ ih => exact ih
  | bootstrap _ _ _ _ ih =>
    rw [Array.toList_push]
    exact ih.trans (List.prefix_append _ _)
  | method _ _ ih => exact ih

/-- The name, the sort and the version of a class file stay what they are. -/
theorem header (hfg : f.Grows g) : g.name = f.name ∧ g.isInterface = f.isInterface ∧ g.majorVersion = f.majorVersion := by
  induction hfg with
  | refl => exact ⟨rfl, rfl, rfl⟩
  | constant _ _ _ _ ih => exact ih
  | bootstrap _ _ _ _ ih => exact ih
  | method _ _ ih => exact ih

/-- A class file that grows stays within its limits. -/
theorem fits (hfg : f.Grows g) (hf : f.Fits) : g.Fits := by
  induction hfg with
  | refl => exact hf
  | constant _ hroom _ _ ih =>
    refine ⟨?_, ih.bootstraps⟩
    simp only [withPool, Pool.Fits, Array.size_push]
    exact hroom
  | bootstrap _ hroom _ _ ih =>
    refine ⟨ih.pool, ?_⟩
    simp only [Array.size_push]
    exact hroom
  | method _ _ ih => exact ⟨ih.pool, ih.bootstraps⟩

/-- A bootstrap method stays at its place. -/
theorem getElem?_bootstraps (hfg : f.Grows g) {i : Nat} {b : Bootstrap} (hb : f.bootstraps[i]? = some b) :
    g.bootstraps[i]? = some b := by
  obtain ⟨t, ht⟩ := hfg.bootstraps
  rw [← Array.getElem?_toList] at hb ⊢
  rw [← ht, List.getElem?_append_left (List.getElem?_eq_some_iff.1 hb).1]
  exact hb

end Grows

/-! ## What each step adds -/

variable {α β : Type}

/-- Run on the class file `f` the step makes it grow, also when it fails, and its answer stands for what `view` says in the class file
behind it. -/
abbrev Adds (step : Step α) (f : ClassFile) (view : α → ClassFile → Prop) : Prop :=
  Moves Grows step f view

/-- A class file grows along two steps, and the second one starts with what the first one added. -/
theorem Adds.bind {x : Step α} {k : α → Step β} {φ : α → ClassFile → Prop} {ψ : β → ClassFile → Prop} (hx : Adds x f φ)
    (hk : ∀ a g, f.Grows g → φ a g → Adds (k a) g ψ) : Adds (x >>= k) f ψ :=
  Moves.bind (R := Grows) (fun _ _ _ => Grows.trans) hx hk

/-- A step on the pool leaves the rest of the class file alone. -/
theorem adds_inPool {step : Pool.Step α} {view : α → Pool → Prop}
    (hs : Pool.Adds Handle.Permitted f.bootstraps.size step f.pool view) :
    Adds (inPool step) f fun a g => g = f.withPool g.pool ∧ view a g.pool :=
  Moves.focus hs (fun _ => Grows.ofPool) fun _ _ hv => ⟨rfl, hv⟩

/-- Adding a bootstrap method answers its place in the table. -/
theorem adds_addBootstrap {methodRef : UInt16} {arguments : List UInt16} (hf : f.Fits)
    (hb : Bootstrap.Admitted f.pool ⟨methodRef, arguments⟩) :
    Adds (addBootstrap methodRef arguments) f fun i g => g.bootstraps[i.toNat]? = some ⟨methodRef, arguments⟩ := by
  have hsize : f.bootstraps.size ≤ 65535 := hf.bootstraps
  have hindex : ∀ i : Nat, i ≤ 65535 → i.toUInt16.toNat = i := by
    intro i hi
    rw [Nat.toUInt16_eq, UInt16.toNat_ofNat']
    exact Nat.mod_eq_of_lt (by omega)
  unfold Adds Moves Ensures addBootstrap
  cases hfind : f.bootstraps.findIdx? (· = ⟨methodRef, arguments⟩) with
  | some i =>
    obtain ⟨hi, hbi, _⟩ := Array.findIdx?_eq_some_iff_getElem.1 hfind
    refine ⟨.refl, ?_⟩
    dsimp only
    rw [hindex i (by omega), Array.getElem?_eq_getElem hi, of_decide_eq_true hbi]
  | none =>
    have hnew : (⟨methodRef, arguments⟩ : Bootstrap) ∉ f.bootstraps := by
      intro hmem
      have := Array.findIdx?_eq_none_iff.1 hfind _ hmem
      simp at this
    by_cases hroom : f.bootstraps.size < maxBootstraps
    · simp only [hroom, if_true]
      refine ⟨.bootstrap .refl hroom hnew hb, ?_⟩
      rw [hindex _ hsize, Array.getElem?_push_size]
    · simp only [hroom, if_false]
      exact .refl

/-- Adding a method pushes an entry from which its name, its descriptor and its body can be read. -/
theorem adds_addMethod {access : Access} {name descriptor : String} {code : CodeBuffer} (hf : f.Fits)
    (hflags : access.conflicts f.isInterface = false) (hconcrete : access.isAbstract = false)
    (hreturn : ∃ opcode ∈ Opcode.returns, code.bytes.back? = some opcode) :
    Adds (addMethod access name descriptor code) f fun _ g => ∃ m, g.methods = f.methods.push m ∧ m.access = access ∧
      g.pool.utf8? m.nameIndex = some name ∧ g.pool.utf8? m.descriptorIndex = some descriptor ∧
      g.body? m = some (.ofBuffer code) := by
  refine (outcome_addMethod Handle.Permitted f.bootstraps.size access name descriptor code hf.pool).mono ?_ ?_
  · rintro _ g ⟨-, -, m, rfl, hrecords, hgrows, -, hg⟩
    obtain ⟨index, hattributes, hindex⟩ := hrecords.stored
    obtain ⟨opcode, hopcode, hback⟩ := hreturn
    have hlast : code.bytes.toList.getLast? = some opcode := by rw [Array.getLast?_toList, hback]
    have hadmitted : m.Admitted (f.withPool g.pool) :=
      ⟨hflags, hconcrete, ⟨name, hrecords.name⟩, ⟨descriptor, hrecords.descriptor⟩, index, .ofBuffer code, hattributes, hindex,
        hrecords.size, opcode, hopcode, hlast⟩
    refine ⟨?_, m, ?_, rfl, hrecords.name, hrecords.descriptor, body?_of_records hrecords⟩
    · rw [hg]
      exact (Grows.ofPool hgrows).method hadmitted
    · rw [hg]
  · rintro fault g (⟨-, -, rfl⟩ | ⟨-, -, -, rfl⟩ | ⟨-, -, -, -, hgrows, hg⟩)
    · exact .refl
    · exact .refl
    · rw [hg]
      exact .ofPool hgrows

end ClassFile

end Linkage
