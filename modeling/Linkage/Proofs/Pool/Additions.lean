import Linkage.Proofs.Pool.Growth
import Linkage.Verification.Pool

/-!
# Pools made by additions

Nine sorts of entries can be added to a pool (`Pool.Addition`). Each addition is a run of single entries, so it can end half-way for want of
room, and its index must stay good whatever is added behind it. `Pool.Gains` is what additions do to a pool. A pool that is made by
additions from the empty one holds no entry twice, each of its entries refers to earlier ones, and every index that an addition answered
leads to what was added.
-/

namespace Linkage

/-- A table without repetitions has none with a new entry at the end. -/
theorem nodup_toList_push {α : Type} {xs : Array α} {x : α} (h : xs.toList.Nodup) (hnew : x ∉ xs) : (xs.push x).toList.Nodup := by
  rw [Array.toList_push]
  refine List.nodup_append.mpr ⟨h, List.pairwise_singleton _ x, ?_⟩
  intro a ha b hb hab
  rw [hab, List.mem_singleton.mp hb] at ha
  exact hnew (Array.mem_def.mpr ha)

namespace Pool

variable {handles : UInt8 → MemberKind → Prop} {bootstraps : Nat} {p q r : Pool} {α β : Type}

/-! ## What growth keeps -/

/-- A pool without repetitions grows without them. -/
theorem Grows.nodup (h : Grows handles bootstraps p q) (hp : p.entries.toList.Nodup) : q.entries.toList.Nodup := by
  induction h with
  | refl => exact hp
  | push _ _ hnew _ ih => exact nodup_toList_push ih hnew

/-- An entry that has joined a pool was admitted by the entries in front of it. -/
theorem Grows.admitted (h : Grows handles bootstraps p q) {i : Nat} {c : Constant} (hi : p.entries.size ≤ i)
    (hc : q.entries[i]? = some c) : ∃ r : Pool, r.Extends q ∧ r.entries.size = i ∧ c.Admitted handles bootstraps r := by
  induction h with
  | refl =>
    have hlt := (Array.getElem?_eq_some_iff.mp hc).1
    omega
  | @push q d _ _ _ hd ih =>
    rw [Array.getElem?_push] at hc
    split at hc
    · rename_i hlast
      rw [← Option.some.inj hc]
      exact ⟨q, extends_push q d, hlast.symm, hd⟩
    · obtain ⟨r, hr, hsize, hadmitted⟩ := ih hc
      exact ⟨r, hr.trans (extends_push q d), hsize, hadmitted⟩

/-! ## Earlier entries -/

/-- The index is below `place`, and an entry that fits stands at it. -/
def Before (p : Pool) (place : Nat) (index : UInt16) (fits : Constant → Bool) : Prop :=
  index.toNat < place ∧ ∃ c, p.get? index = some c ∧ fits c = true

/-- An entry of the pool stands before all that are added later. -/
theorem Extends.before {index : UInt16} {c : Constant} {fits : Constant → Bool} (h : r.Extends q) (hc : r.get? index = some c)
    (hfits : fits c = true) : q.Before (r.entries.size + 1) index fits :=
  ⟨Nat.lt_succ_of_le (index_of_get? hc).2, c, h.get? hc, hfits⟩

/-- A text of the pool stands before all that is added later. -/
theorem Extends.before_utf8 {index : UInt16} (h : r.Extends q) (hs : ∃ s, r.utf8? index = some s) :
    q.Before (r.entries.size + 1) index Constant.isUtf8 := by
  obtain ⟨s, hs⟩ := hs
  exact h.before (utf8?_eq_some_iff.mp hs) rfl

/-- A name with a descriptor stands before all that is added later. -/
theorem Extends.before_nameAndType {index : UInt16} (h : r.Extends q) (hs : ∃ s, r.nameAndType? index = some s) :
    q.Before (r.entries.size + 1) index Constant.isNameAndType := by
  obtain ⟨s, hs⟩ := hs
  obtain ⟨n, d, hget, -⟩ := nameAndType?_eq_some_iff.mp hs
  exact h.before hget rfl

end Pool

/-- Every index inside the entry of number `place`, but for that of a bootstrap method, leads to an earlier entry, of the sort that the
index is there for. A handle is one on a method of a class or of an interface. -/
def Constant.RefersBack (p : Pool) (place : Nat) : Constant → Prop
  | .utf8 _ => True
  | .integer _ => True
  | .classRef name => p.Before place name isUtf8
  | .string text => p.Before place text isUtf8
  | .member _ owner signature => p.Before place owner isClass ∧ p.Before place signature isNameAndType
  | .nameAndType name descriptor => p.Before place name isUtf8 ∧ p.Before place descriptor isUtf8
  | .methodHandle _ reference => p.Before place reference (isMemberOf [.method, .interfaceMethod])
  | .methodType descriptor => p.Before place descriptor isUtf8
  | .invokeDynamic _ signature => p.Before place signature isNameAndType

namespace Pool

variable {p q r : Pool}

/-- Handles on methods and call sites of any bootstrap method are admitted: these are what additions make. -/
abbrev Gains (p q : Pool) : Prop :=
  Grows (fun _ kind => kind ≠ .field) UInt16.size p q

/-- An entry that is admitted refers to entries that the pool has. -/
theorem Extends.refersBack {c : Constant} (h : r.Extends q) (hc : c.Admitted (fun _ kind => kind ≠ .field) UInt16.size r) :
    c.RefersBack q (r.entries.size + 1) := by
  cases c with
  | utf8 _ => trivial
  | integer _ => trivial
  | classRef name => exact h.before_utf8 hc
  | string text => exact h.before_utf8 hc
  | member kind owner signature =>
    obtain ⟨⟨name, howner⟩, hsignature⟩ := hc
    obtain ⟨n, hget, -⟩ := className?_eq_some_iff.mp howner
    exact ⟨h.before hget rfl, h.before_nameAndType hsignature⟩
  | nameAndType name descriptor => exact ⟨h.before_utf8 hc.1, h.before_utf8 hc.2⟩
  | methodHandle number reference =>
    obtain ⟨kind, member, hmember, hkind⟩ := hc
    obtain ⟨o, s, hget, -⟩ := kindAndMember?_eq_some_iff.mp hmember
    refine h.before hget ?_
    cases kind with
    | field => exact absurd rfl hkind
    | method => rfl
    | interfaceMethod => rfl
  | methodType descriptor => exact h.before_utf8 hc
  | invokeDynamic bootstrap signature => exact h.before_nameAndType hc.2

/-! ## Additions -/

/-- What can be added to a pool, by the texts and numbers that it is made of. -/
inductive Addition where
  | utf8 (text : String)
  | integer (value : Int32)
  | classRef (name : String)
  | string (text : String)
  | nameAndType (name descriptor : String)
  | member (kind : MemberKind) (owner name descriptor : String)
  | methodHandle (number : UInt8) (owner name descriptor : String) (onInterface : Bool)
  | methodType (descriptor : String)
  | invokeDynamic (bootstrap : UInt16) (name descriptor : String)

namespace Addition

/-- The step that adds it and answers its index. -/
def step : Addition → Step UInt16
  | utf8 text => addUtf8 text
  | integer value => addInteger value
  | classRef name => addClass name
  | string text => addString text
  | nameAndType name descriptor => addNameAndType name descriptor
  | member kind owner name descriptor => addMember kind owner name descriptor
  | methodHandle number owner name descriptor onInterface => addMethodHandle number owner name descriptor onInterface
  | methodType descriptor => addMethodType descriptor
  | invokeDynamic bootstrap name descriptor => addInvokeDynamic bootstrap name descriptor

/-- What the index leads to is what was added: the same sort of entry, and behind its indices the same texts and numbers. -/
def StandsAt (p : Pool) (index : UInt16) : Addition → Prop
  | utf8 text => p.utf8? index = some text
  | integer value => p.get? index = some (.integer value)
  | classRef name => p.className? index = some name
  | string text => ∃ t, p.get? index = some (.string t) ∧ p.utf8? t = some text
  | nameAndType name descriptor => p.nameAndType? index = some (name, descriptor)
  | member kind owner name descriptor =>
    (∃ o s, p.get? index = some (.member kind o s)) ∧ p.member? index = some (owner, name, descriptor)
  | methodHandle number owner name descriptor onInterface => ∃ m o s, p.get? index = some (.methodHandle number m) ∧
    p.get? m = some (.member (.ofMethod onInterface) o s) ∧ p.member? m = some (owner, name, descriptor)
  | methodType descriptor => ∃ d, p.get? index = some (.methodType d) ∧ p.utf8? d = some descriptor
  | invokeDynamic bootstrap name descriptor =>
    ∃ s, p.get? index = some (.invokeDynamic bootstrap s) ∧ p.nameAndType? s = some (name, descriptor)

end Addition

/-- A reference to a member, read down to its texts. -/
theorem member_of_kindAndMember? {index : UInt16} {kind : MemberKind} {owner name descriptor : String}
    (h : p.kindAndMember? index = some (kind, owner, name, descriptor)) :
    (∃ o s, p.get? index = some (.member kind o s)) ∧ p.member? index = some (owner, name, descriptor) := by
  obtain ⟨o, s, hget, ho, hs⟩ := kindAndMember?_eq_some_iff.mp h
  exact ⟨⟨o, s, hget⟩, member?_eq_some_iff.mpr ⟨kind, o, s, hget, ho, hs⟩⟩

/-- An addition lets the pool grow, also when it fails, and its index leads to what was added. -/
theorem Addition.gains_step (a : Addition) (hp : p.Fits) : Moves Gains a.step p fun index q => a.StandsAt q index := by
  have hmethod : ∀ onInterface, MemberKind.ofMethod onInterface ≠ .field := by decide
  cases a with
  | utf8 text => exact adds_addUtf8 text hp
  | integer value => exact adds_addInteger value hp
  | classRef name => exact adds_addClass name hp
  | string text => exact adds_addString text hp
  | nameAndType name descriptor => exact adds_addNameAndType name descriptor hp
  | member kind owner name descriptor =>
    exact (adds_addMember kind owner name descriptor hp).mono fun _ _ _ h => member_of_kindAndMember? h
  | methodHandle number owner name descriptor onInterface =>
    refine (adds_addMethodHandle number owner name descriptor onInterface hp (hmethod onInterface)).mono fun index q _ h => ?_
    obtain ⟨m, hget, hm⟩ := handle?_eq_some_iff.mp h
    obtain ⟨⟨o, s, hmember⟩, htexts⟩ := member_of_kindAndMember? hm
    exact ⟨m, o, s, hget, hmember, htexts⟩
  | methodType descriptor =>
    exact (adds_addMethodType descriptor hp).mono fun _ _ _ h => methodType?_eq_some_iff.mp h
  | invokeDynamic bootstrap name descriptor =>
    exact (adds_addInvokeDynamic bootstrap name descriptor hp bootstrap.toNat_lt).mono fun _ _ _ h => dynamic?_eq_some_iff.mp h

/-- No addition stands at index zero. -/
theorem Addition.StandsAt.ne_zero {a : Addition} {index : UInt16} (h : a.StandsAt p index) : index ≠ 0 := by
  have hget : ∃ c, p.get? index = some c := by
    cases a with
    | utf8 text => exact ⟨_, utf8?_eq_some_iff.mp h⟩
    | integer value => exact ⟨_, h⟩
    | classRef name => exact (className?_eq_some_iff.mp h).imp' _ fun _ hn => hn.1
    | string text => exact h.imp' _ fun _ ht => ht.1
    | nameAndType name descriptor =>
      obtain ⟨n, d, hget, -⟩ := nameAndType?_eq_some_iff.mp h
      exact ⟨_, hget⟩
    | member kind owner name descriptor =>
      obtain ⟨⟨o, s, hget⟩, -⟩ := h
      exact ⟨_, hget⟩
    | methodHandle number owner name descriptor onInterface =>
      obtain ⟨m, o, s, hget, -⟩ := h
      exact ⟨_, hget⟩
    | methodType descriptor => exact h.imp' _ fun _ hd => hd.1
    | invokeDynamic bootstrap name descriptor => exact h.imp' _ fun _ hs => hs.1
  obtain ⟨c, hc⟩ := hget
  exact (index_of_get? hc).1

/-- What stands at an index stands there for good. -/
theorem Extends.standsAt {a : Addition} {index : UInt16} (h : p.Extends q) (ha : a.StandsAt p index) : a.StandsAt q index := by
  have hmember : ∀ {i : UInt16} {owner name descriptor : String}, p.member? i = some (owner, name, descriptor) →
      q.member? i = some (owner, name, descriptor) := by
    intro i owner name descriptor hi
    obtain ⟨kind, o, s, hget, ho, hs⟩ := member?_eq_some_iff.mp hi
    exact member?_eq_some_iff.mpr ⟨kind, o, s, h.get? hget, h.className? ho, h.nameAndType? hs⟩
  cases a with
  | utf8 text => exact h.utf8? ha
  | integer value => exact h.get? ha
  | classRef name => exact h.className? ha
  | string text => exact ha.imp fun _ ht => ⟨h.get? ht.1, h.utf8? ht.2⟩
  | nameAndType name descriptor => exact h.nameAndType? ha
  | member kind owner name descriptor =>
    obtain ⟨⟨o, s, hget⟩, htexts⟩ := ha
    exact ⟨⟨o, s, h.get? hget⟩, hmember htexts⟩
  | methodHandle number owner name descriptor onInterface =>
    obtain ⟨m, o, s, hget, hm, htexts⟩ := ha
    exact ⟨m, o, s, h.get? hget, h.get? hm, hmember htexts⟩
  | methodType descriptor => exact ha.imp fun _ hd => ⟨h.get? hd.1, h.utf8? hd.2⟩
  | invokeDynamic bootstrap name descriptor => exact ha.imp fun _ hs => ⟨h.get? hs.1, h.nameAndType? hs.2⟩

/-! ## Additions that fail -/

/-- The step fails in a pool only that is full by then. -/
def FailsFull (step : Step α) : Prop :=
  ∀ p, Ensures step p (fun _ _ => True) fun _ q => capacity ≤ q.entries.size

/-- A constant cannot be added only if the pool is full. -/
theorem failsFull_add (c : Constant) : FailsFull (add c) := by
  intro p
  refine (ensures_add_size c p).mono (fun _ _ _ => trivial) ?_
  rintro _ q ⟨rfl, hfull⟩
  exact hfull

/-- Two steps that fail in a full pool only, one after the other. -/
theorem failsFull_bind {x : Step α} {f : α → Step β} (hx : FailsFull x) (hf : ∀ a, FailsFull (f a)) : FailsFull (x >>= f) := by
  intro p
  rw [ensures_bind]
  exact (hx p).mono (fun a q _ => hf a q) (fun _ _ h => h)

/-- A name with a descriptor cannot be added only if the pool is full. -/
theorem failsFull_addNameAndType (name descriptor : String) : FailsFull (addNameAndType name descriptor) :=
  failsFull_bind (failsFull_add _) fun _ => failsFull_bind (failsFull_add _) fun _ => failsFull_add _

/-- A member cannot be added only if the pool is full. -/
theorem failsFull_addMember (kind : MemberKind) (owner name descriptor : String) : FailsFull (addMember kind owner name descriptor) :=
  failsFull_bind (failsFull_bind (failsFull_add _) fun _ => failsFull_add _) fun _ =>
    failsFull_bind (failsFull_addNameAndType name descriptor) fun _ => failsFull_add _

/-- Nothing that can be added fails but in a full pool. -/
theorem Addition.failsFull_step (a : Addition) : FailsFull a.step := by
  cases a with
  | utf8 text => exact failsFull_add _
  | integer value => exact failsFull_add _
  | classRef name => exact failsFull_bind (failsFull_add _) fun _ => failsFull_add _
  | string text => exact failsFull_bind (failsFull_add _) fun _ => failsFull_add _
  | nameAndType name descriptor => exact failsFull_addNameAndType name descriptor
  | member kind owner name descriptor => exact failsFull_addMember kind owner name descriptor
  | methodHandle number owner name descriptor onInterface =>
    exact failsFull_bind (failsFull_addMember _ owner name descriptor) fun _ => failsFull_add _
  | methodType descriptor => exact failsFull_bind (failsFull_add _) fun _ => failsFull_add _
  | invokeDynamic bootstrap name descriptor =>
    exact failsFull_bind (failsFull_addNameAndType name descriptor) fun _ => failsFull_add _

/-! ## Additions in a row -/

/-- The pool behind additions in order, those that fail among them. -/
def addAll (p : Pool) (additions : List Addition) : Pool :=
  additions.foldl (fun q a => (runStep a.step q).2) p

/-- Additions behind additions are additions in a row. -/
theorem addAll_append (p : Pool) (additions later : List Addition) : p.addAll (additions ++ later) = (p.addAll additions).addAll later :=
  List.foldl_append

/-- Additions in a row extend the pool by new entries that refer to earlier ones. -/
theorem gains_addAll (hp : p.Fits) (additions : List Addition) : p.Gains (p.addAll additions) := by
  induction additions generalizing p with
  | nil => exact .refl
  | cons a as ih =>
    have hstep : p.Gains (runStep a.step p).2 :=
      Ensures.snd_runStep (Ensures.mono (a.gains_step hp) (fun _ _ h => h.1) (fun _ _ h => h))
    exact hstep.trans (ih (hstep.fits hp))

/-- Whatever is added to an empty pool in whatever order, no entry is there twice, there are at most 65534, what comes later moves and
changes none of them, and each refers to earlier entries only. The next addition fails in a full pool only; its index is not zero and
leads to what was added, then and behind everything that is added later. -/
theorem addAll_sound (additions : List Addition) :
    (addAll {} additions).entries.toList.Nodup ∧ (addAll {} additions).entries.size ≤ 65534 ∧
      (∀ later, (addAll {} additions).Extends (addAll {} (additions ++ later))) ∧
      (∀ (i : Nat) (c : Constant), (addAll {} additions).entries[i]? = some c → c.RefersBack (addAll {} additions) (i + 1)) ∧
      ∀ a : Addition, Ensures a.step (addAll {} additions)
        (fun index q => index ≠ 0 ∧ ∀ later, a.StandsAt (q.addAll later) index)
        (fun _ q => q.entries.size = 65534) := by
  have hgains : Gains {} (addAll {} additions) := gains_addAll fits_empty additions
  have hfits := hgains.fits fits_empty
  refine ⟨hgains.nodup List.nodup_nil, hfits, ?_, ?_, ?_⟩
  · intro later
    rw [addAll_append]
    exact (gains_addAll hfits later).toExtends
  · intro i c hc
    obtain ⟨r, hr, hsize, hadmitted⟩ := hgains.admitted (Nat.zero_le i) hc
    rw [← hsize]
    exact hr.refersBack hadmitted
  · intro a
    refine Ensures.intro (fun index q hrun => ?_) (fun fault q hrun => ?_)
    · obtain ⟨hq, hstands⟩ := Ensures.of_ok (a.gains_step hfits) hrun
      exact ⟨hstands.ne_zero, fun later => (gains_addAll (hq.fits hfits) later).toExtends.standsAt hstands⟩
    · have hq : Gains (addAll {} additions) q := Ensures.of_error (a.gains_step hfits) hrun
      exact Nat.le_antisymm (hq.fits hfits) ((a.failsFull_step _).of_error hrun)

end Pool

end Linkage
