import Linkage.Proofs.Pool.View
import Linkage.Proofs.Step

/-!
# Growth of the constant pool

A pool changes in one way only: a new entry is pushed whose indices lead to what their places ask for. `Pool.Grows` is the run of
such pushes. Every step that adds an entry is one, whether it ends well or half-way, and a step that ends well answers an index that
leads to what was to be added (`ensures_add…`).
-/

namespace Linkage

/-- What an entry must find behind its indices in the pool it joins. `handles` says which members a handle of a number may be on, and
a dynamic call site must name one of `bootstraps` bootstrap methods. -/
def Constant.Admitted (handles : UInt8 → MemberKind → Prop) (bootstraps : Nat) (p : Pool) : Constant → Prop
  | .utf8 _ => True
  | .integer _ => True
  | .classRef name => ∃ s, p.utf8? name = some s
  | .string text => ∃ s, p.utf8? text = some s
  | .member _ owner signature => (∃ s, p.className? owner = some s) ∧ ∃ s, p.nameAndType? signature = some s
  | .nameAndType name descriptor => (∃ s, p.utf8? name = some s) ∧ ∃ s, p.utf8? descriptor = some s
  | .methodHandle number reference => ∃ kind m, p.kindAndMember? reference = some (kind, m) ∧ handles number kind
  | .methodType descriptor => ∃ s, p.utf8? descriptor = some s
  | .invokeDynamic bootstrap signature => bootstrap.toNat < bootstraps ∧ ∃ s, p.nameAndType? signature = some s

namespace Pool

variable {handles : UInt8 → MemberKind → Prop} {bootstraps : Nat} {p q r : Pool} {index : UInt16}

/-- An admitted entry stays admitted while the pool is extended and bootstrap methods are added. -/
theorem Extends.admitted (h : p.Extends q) {c : Constant} {bootstraps' : Nat} (hb : bootstraps ≤ bootstraps')
    (hc : c.Admitted handles bootstraps p) : c.Admitted handles bootstraps' q := by
  cases c with
  | utf8 _ => trivial
  | integer _ => trivial
  | classRef n => exact hc.imp fun _ => h.utf8?
  | string t => exact hc.imp fun _ => h.utf8?
  | member k o s => exact ⟨hc.1.imp fun _ => h.className?, hc.2.imp fun _ => h.nameAndType?⟩
  | nameAndType n d => exact ⟨hc.1.imp fun _ => h.utf8?, hc.2.imp fun _ => h.utf8?⟩
  | methodHandle k m => exact hc.imp fun _ => Exists.imp fun _ hm => ⟨h.kindAndMember? hm.1, hm.2⟩
  | methodType d => exact hc.imp fun _ => h.utf8?
  | invokeDynamic b s => exact ⟨Nat.lt_of_lt_of_le hc.1 hb, hc.2.imp fun _ => h.nameAndType?⟩

/-- The pool is within its capacity, so that an index has room for the number of every entry. -/
def Fits (p : Pool) : Prop :=
  p.entries.size ≤ capacity

/-- The empty pool is within its capacity. -/
theorem fits_empty : Fits {} :=
  Nat.zero_le _

/-- `p.Grows q`: `q` is `p` with new, admitted entries pushed one at a time while there is room. -/
inductive Grows (handles : UInt8 → MemberKind → Prop) (bootstraps : Nat) (p : Pool) : Pool → Prop where
  | refl : Grows handles bootstraps p p
  | push {q : Pool} {c : Constant} : Grows handles bootstraps p q → q.entries.size < capacity → c ∉ q.entries →
      c.Admitted handles bootstraps q → Grows handles bootstraps p ⟨q.entries.push c⟩

namespace Grows

/-- Growth goes on. -/
theorem trans (h : Grows handles bootstraps p q) (h' : Grows handles bootstraps q r) : Grows handles bootstraps p r := by
  induction h' with
  | refl => exact h
  | push _ hroom hnew hc ih => exact push ih hroom hnew hc

/-- A pool that has grown extends what it was. -/
theorem toExtends (h : Grows handles bootstraps p q) : p.Extends q := by
  induction h with
  | refl => exact Extends.refl p
  | push _ _ _ _ ih => exact ih.trans (extends_push _ _)

/-- A pool that grows stays within its capacity. -/
theorem fits (h : Grows handles bootstraps p q) (hp : p.Fits) : q.Fits := by
  cases h with
  | refl => exact hp
  | push _ hroom _ _ =>
    simp only [Fits, Array.size_push]
    exact hroom

end Grows

/-! ## What each step adds -/

/-- Run on the pool `p` the step makes it grow, also when it fails, and its answer stands for what `view` says in the pool behind
it. -/
abbrev Adds {α : Type} (handles : UInt8 → MemberKind → Prop) (bootstraps : Nat) (step : Step α) (p : Pool)
    (view : α → Pool → Prop) : Prop :=
  Moves (Grows handles bootstraps) step p view

/-- A pool grows along two steps, and the second one starts with what the first one added. -/
theorem Adds.bind {α β : Type} {x : Step α} {f : α → Step β} {φ : α → Pool → Prop} {ψ : β → Pool → Prop}
    (hx : Adds handles bootstraps x p φ)
    (hf : ∀ a q, Grows handles bootstraps p q → φ a q → Adds handles bootstraps (f a) q ψ) :
    Adds handles bootstraps (x >>= f) p ψ :=
  Moves.bind (R := Grows handles bootstraps) (fun _ _ _ => Grows.trans) hx hf

/-- The index of an entry, seen from the place where it stands. -/
theorem get?_of_getElem? {c : Constant} {i : Nat} (hp : p.Fits) (h : p.entries[i]? = some c) :
    p.get? (i + 1).toUInt16 = some c := by
  have hi : i < p.entries.size := (Array.getElem?_eq_some_iff.1 h).1
  have hsize : p.entries.size ≤ 65534 := hp
  have hnat : (i + 1).toUInt16.toNat = i + 1 := by
    rw [Nat.toUInt16_eq, UInt16.toNat_ofNat']
    exact Nat.mod_eq_of_lt (by omega)
  have h0 : (i + 1).toUInt16 ≠ 0 := by
    intro hz
    rw [hz] at hnat
    exact absurd hnat (by simp)
  rw [get?, if_neg h0, hnat, Nat.add_sub_cancel]
  exact h

/-- Adding an entry answers an index at which the entry stands. -/
theorem adds_add (c : Constant) (hp : p.Fits) (hc : c.Admitted handles bootstraps p) :
    Adds handles bootstraps (add c) p fun i q => q.get? i = some c := by
  unfold Adds Moves Ensures add
  cases hfind : p.entries.findIdx? (· = c) with
  | some i =>
    obtain ⟨hi, hci, _⟩ := Array.findIdx?_eq_some_iff_getElem.1 hfind
    refine ⟨.refl, get?_of_getElem? hp ?_⟩
    rw [Array.getElem?_eq_getElem hi, of_decide_eq_true hci]
  | none =>
    have hnew : c ∉ p.entries := by
      intro hmem
      have := Array.findIdx?_eq_none_iff.1 hfind c hmem
      simp at this
    by_cases hroom : p.entries.size < capacity
    · simp only [hroom, if_true]
      have hgrows : Grows handles bootstraps p ⟨p.entries.push c⟩ := .push .refl hroom hnew hc
      exact ⟨hgrows, get?_of_getElem? (hgrows.fits hp) (by simp)⟩
    · simp only [hroom, if_false]
      exact .refl

/-- An entry that is there is not added again, a new one is added at the end, and where there is no room for it nothing is changed. -/
theorem outcome_add (c : Constant) (p : Pool) :
    Ensures (add c) p (fun _ q => c ∈ p.entries ∧ q = p ∨ c ∉ p.entries ∧ p.entries.size < capacity ∧ q = ⟨p.entries.push c⟩)
      (fun fault q => fault = .full ∧ c ∉ p.entries ∧ capacity ≤ p.entries.size ∧ q = p) := by
  unfold Ensures add
  cases hfind : p.entries.findIdx? (· = c) with
  | some i =>
    obtain ⟨hi, hci, -⟩ := Array.findIdx?_eq_some_iff_getElem.1 hfind
    refine .inl ⟨?_, rfl⟩
    rw [← of_decide_eq_true hci]
    exact Array.getElem_mem hi
  | none =>
    have hnew : c ∉ p.entries := by
      intro hmem
      have := Array.findIdx?_eq_none_iff.1 hfind c hmem
      simp at this
    by_cases hroom : p.entries.size < capacity
    · simp only [hroom, if_true]
      exact .inr ⟨hnew, trivial, trivial⟩
    · simp only [hroom, if_false]
      exact ⟨trivial, hnew, Nat.le_of_not_lt hroom, trivial⟩

/-- Adding an entry takes one place at most, and where there is none it changes nothing. -/
theorem ensures_add_size (c : Constant) (p : Pool) :
    Ensures (add c) p (fun _ q => q.entries.size ≤ p.entries.size + 1) (fun _ q => q = p ∧ capacity ≤ p.entries.size) := by
  refine (outcome_add c p).mono ?_ ?_
  · rintro _ q (⟨-, rfl⟩ | ⟨-, -, rfl⟩)
    · exact Nat.le_succ _
    · exact Nat.le_of_eq (Array.size_push c)
  · rintro _ q ⟨-, -, hfull, rfl⟩
    exact ⟨rfl, hfull⟩

/-- The index that is answered leads to the text. -/
theorem adds_addUtf8 (text : String) (hp : p.Fits) :
    Adds handles bootstraps (addUtf8 text) p fun i q => q.utf8? i = some text :=
  (adds_add (.utf8 text) hp trivial).mono fun _ _ _ h => utf8?_eq_some_iff.mpr h

/-- The index that is answered leads to the number. -/
theorem adds_addInteger (value : Int32) (hp : p.Fits) :
    Adds handles bootstraps (addInteger value) p fun i q => q.get? i = some (.integer value) :=
  adds_add (.integer value) hp trivial

/-- The index that is answered leads to the class of that name. -/
theorem adds_addClass (name : String) (hp : p.Fits) :
    Adds handles bootstraps (addClass name) p fun i q => q.className? i = some name := by
  refine (adds_addUtf8 name hp).bind fun n q hpq hn => ?_
  refine (adds_add (.classRef n) (hpq.fits hp) ⟨name, hn⟩).mono fun i r hqr hi => ?_
  exact className?_eq_some_iff.mpr ⟨n, hi, hqr.toExtends.utf8? hn⟩

/-- The index that is answered leads to the string with that text. -/
theorem adds_addString (text : String) (hp : p.Fits) :
    Adds handles bootstraps (addString text) p fun i q => ∃ n, q.get? i = some (.string n) ∧ q.utf8? n = some text := by
  refine (adds_addUtf8 text hp).bind fun n q hpq hn => ?_
  refine (adds_add (.string n) (hpq.fits hp) ⟨text, hn⟩).mono fun i r hqr hi => ?_
  exact ⟨n, hi, hqr.toExtends.utf8? hn⟩

/-- The index that is answered leads to that name and descriptor. -/
theorem adds_addNameAndType (name descriptor : String) (hp : p.Fits) :
    Adds handles bootstraps (addNameAndType name descriptor) p fun i q => q.nameAndType? i = some (name, descriptor) := by
  refine (adds_addUtf8 name hp).bind fun n q hpq hn => ?_
  refine (adds_addUtf8 descriptor (hpq.fits hp)).bind fun d r hqr hd => ?_
  have hn' := hqr.toExtends.utf8? hn
  refine (adds_add (.nameAndType n d) (hqr.fits (hpq.fits hp)) ⟨⟨name, hn'⟩, ⟨descriptor, hd⟩⟩).mono fun i s hrs hi => ?_
  exact nameAndType?_eq_some_iff.mpr ⟨n, d, hi, hrs.toExtends.utf8? hn', hrs.toExtends.utf8? hd⟩

/-- The index that is answered leads to that member. -/
theorem adds_addMember (kind : MemberKind) (owner name descriptor : String) (hp : p.Fits) :
    Adds handles bootstraps (addMember kind owner name descriptor) p fun i q =>
      q.kindAndMember? i = some (kind, owner, name, descriptor) := by
  refine (adds_addClass owner hp).bind fun o q hpq ho => ?_
  refine (adds_addNameAndType name descriptor (hpq.fits hp)).bind fun s r hqr hs => ?_
  have ho' := hqr.toExtends.className? ho
  refine (adds_add (.member kind o s) (hqr.fits (hpq.fits hp)) ⟨⟨owner, ho'⟩, ⟨_, hs⟩⟩).mono fun i t hrt hi => ?_
  exact kindAndMember?_eq_some_iff.mpr ⟨o, s, hi, hrt.toExtends.className? ho', hrt.toExtends.nameAndType? hs⟩

/-- The index that is answered leads to that handle, if the rule on handles allows it. -/
theorem adds_addMethodHandle (number : UInt8) (owner name descriptor : String) (onInterface : Bool) (hp : p.Fits)
    (hh : handles number (.ofMethod onInterface)) :
    Adds handles bootstraps (addMethodHandle number owner name descriptor onInterface) p fun i q =>
      q.handle? i = some ⟨number, .ofMethod onInterface, owner, name, descriptor⟩ := by
  refine (adds_addMember (.ofMethod onInterface) owner name descriptor hp).bind fun m q hpq hm => ?_
  refine (adds_add (.methodHandle number m) (hpq.fits hp) ⟨_, _, hm, hh⟩).mono fun i r hqr hi => ?_
  exact handle?_eq_some_iff.mpr ⟨m, hi, hqr.toExtends.kindAndMember? hm⟩

/-- The index that is answered leads to the method type with that descriptor. -/
theorem adds_addMethodType (descriptor : String) (hp : p.Fits) :
    Adds handles bootstraps (addMethodType descriptor) p fun i q => q.methodType? i = some descriptor := by
  refine (adds_addUtf8 descriptor hp).bind fun n q hpq hn => ?_
  refine (adds_add (.methodType n) (hpq.fits hp) ⟨descriptor, hn⟩).mono fun i r hqr hi => ?_
  exact methodType?_eq_some_iff.mpr ⟨n, hi, hqr.toExtends.utf8? hn⟩

/-- The index that is answered leads to that call site, if its bootstrap method is in the table. -/
theorem adds_addInvokeDynamic (bootstrap : UInt16) (name descriptor : String) (hp : p.Fits)
    (hb : bootstrap.toNat < bootstraps) :
    Adds handles bootstraps (addInvokeDynamic bootstrap name descriptor) p fun i q =>
      q.dynamic? i = some (bootstrap, name, descriptor) := by
  refine (adds_addNameAndType name descriptor hp).bind fun s q hpq hs => ?_
  refine (adds_add (.invokeDynamic bootstrap s) (hpq.fits hp) ⟨hb, _, hs⟩).mono fun i r hqr hi => ?_
  exact dynamic?_eq_some_iff.mpr ⟨s, hi, hqr.toExtends.nameAndType? hs⟩

end Pool

end Linkage
