import Linkage.ClassTable.Basic
import Linkage.Journal.Lookup

/-!
# Chains of aliases

An alias names its target, which may be an alias itself, so a name begins a chain of hops (`hops?`). The chain ends at a declaration that is
no alias or at a name that is not registered, or it never ends. Following it looks at one declaration in each of its turns, so it lands on
a declaration that fewer than `aliasLimit` hops lead to, and gives up on any other (`underlying?_eq_some_iff_hops`). A chain of exactly `aliasLimit`
hops is reported as too long (`not_underlying?_sampleLinks`).
-/

namespace Linkage

namespace ClassTable

variable {t : ClassTable} {name last : String} {hops limit : Nat}

/-- The target of the alias that is registered under a name. -/
def aliasTarget? (t : ClassTable) (name : String) : Option String :=
  (t.get? name).bind (·.aliasOf)

/-- The name to which so many hops from alias to target lead, if there are so many. -/
def hops? (t : ClassTable) : Nat → String → Option String
  | 0, name => some name
  | hops + 1, name => (t.aliasTarget? name).bind (t.hops? hops)

/-- Where the chain of a name ends when no more than `limit` turns are spent on it. -/
def Lands (t : ClassTable) (name : String) (limit : Nat) : Landing → Prop
  | .declared decl => decl.aliasOf = none ∧ ∃ hops < limit, ∃ last, t.hops? hops name = some last ∧ t.get? last = some decl
  | .unknown => ∃ hops ≤ limit, ∃ last, t.hops? hops name = some last ∧ t.get? last = none
  | .tooLong => ∃ last decl, t.hops? limit name = some last ∧ t.get? last = some decl

/-! ## Hops -/

theorem hops?_add (t : ClassTable) (first second : Nat) (name : String) :
    t.hops? (first + second) name = (t.hops? first name).bind (t.hops? second) := by
  induction first generalizing name with
  | zero => simp [hops?]
  | succ first ih =>
    rw [Nat.succ_add, hops?, hops?, Option.bind_assoc]
    exact Option.bind_congr fun target _ => ih target

/-- A longer chain begins with the shorter one. -/
theorem hops?_of_le {longer : Nat} {farther : String} (hle : hops ≤ longer) (hlast : t.hops? hops name = some last)
    (hfarther : t.hops? longer name = some farther) : t.hops? (longer - hops) last = some farther := by
  have hadd := t.hops?_add hops (longer - hops) name
  rw [Nat.add_sub_cancel' hle, hfarther, hlast, Option.bind_some] at hadd
  exact hadd.symm

/-- From a name that is no alias no hop leads away. -/
theorem hops?_of_aliasTarget?_eq_none (hlast : t.aliasTarget? last = none) {farther : String}
    (h : t.hops? hops last = some farther) : hops = 0 := by
  cases hops with
  | zero => rfl
  | succ hops =>
    rw [hops?, hlast] at h
    cases h

/-- A chain has one end. -/
theorem end_unique {hops' : Nat} {last' : String} (h : t.hops? hops name = some last) (hend : t.aliasTarget? last = none)
    (h' : t.hops? hops' name = some last') (hend' : t.aliasTarget? last' = none) : hops = hops' ∧ last = last' := by
  have hlengths : hops = hops' := by
    rcases Nat.le_total hops hops' with hle | hle
    · have hzero := hops?_of_aliasTarget?_eq_none hend (hops?_of_le hle h h')
      omega
    · have hzero := hops?_of_aliasTarget?_eq_none hend' (hops?_of_le hle h' h)
      omega
  subst hlengths
  rw [h] at h'
  exact ⟨rfl, Option.some.inj h'⟩

/-- A chain that has led so far from a name beyond its end has not ended there. -/
theorem length_le_of_end {longer : Nat} {farther : String} (h : t.hops? hops name = some last) (hend : t.aliasTarget? last = none)
    (hfarther : t.hops? longer name = some farther) : longer ≤ hops := by
  rcases Nat.le_total hops longer with hle | hle
  · have hzero := hops?_of_aliasTarget?_eq_none hend (hops?_of_le hle h hfarther)
    omega
  · exact hle

theorem aliasTarget?_of_get?_eq_none (h : t.get? name = none) : t.aliasTarget? name = none := by
  rw [aliasTarget?, h]
  rfl

theorem aliasTarget?_of_get? {decl : ClassDecl} (h : t.get? name = some decl) : t.aliasTarget? name = decl.aliasOf := by
  rw [aliasTarget?, h]
  rfl

/-! ## Following a chain -/

/-- Each turn of following a chain spends one hop. -/
theorem Lands.hop {target : String} {landing : Landing} (htarget : t.aliasTarget? name = some target)
    (h : t.Lands target limit landing) : t.Lands name (limit + 1) landing := by
  have hhop : ∀ hops, t.hops? (hops + 1) name = t.hops? hops target := by
    intro hops
    rw [hops?, htarget, Option.bind_some]
  cases landing with
  | declared decl =>
    obtain ⟨halias, hops, hlt, last, hlast, hdecl⟩ := h
    exact ⟨halias, hops + 1, Nat.succ_lt_succ hlt, last, (hhop hops).trans hlast, hdecl⟩
  | unknown =>
    obtain ⟨hops, hle, last, hlast, hnone⟩ := h
    exact ⟨hops + 1, Nat.succ_le_succ hle, last, (hhop hops).trans hlast, hnone⟩
  | tooLong =>
    obtain ⟨last, decl, hlast, hdecl⟩ := h
    exact ⟨last, decl, (hhop limit).trans hlast, hdecl⟩

/-- Following the aliases of a registered name lands where its chain does. -/
theorem lands_followFrom {decl : ClassDecl} (h : t.get? name = some decl) : t.Lands name limit (t.followFrom limit decl) := by
  induction limit generalizing name decl with
  | zero => exact ⟨name, decl, rfl, h⟩
  | succ limit ih =>
    have htarget := aliasTarget?_of_get? h
    unfold followFrom
    split
    · rename_i halias
      exact ⟨halias, 0, Nat.succ_pos limit, name, rfl, h⟩
    · rename_i target halias
      refine Lands.hop (htarget.trans halias) ?_
      split
      · rename_i hnone
        exact ⟨0, Nat.zero_le limit, target, rfl, hnone⟩
      · rename_i next hnext
        exact ih hnext

theorem lands_follow (t : ClassTable) (name : String) : t.Lands name aliasLimit (t.follow name) := by
  unfold follow
  split
  · rename_i hnone
    exact ⟨0, Nat.zero_le aliasLimit, name, rfl, hnone⟩
  · rename_i decl hdecl
    exact lands_followFrom hdecl

/-- A chain that lands on a declaration lands nowhere else: it has one end, and has not come so far as `limit` hops there. -/
theorem Lands.eq_declared {decl : ClassDecl} {landing : Landing} (h : t.Lands name limit (.declared decl))
    (h' : t.Lands name limit landing) : landing = .declared decl := by
  obtain ⟨halias, hops, hlt, last, hlast, hdecl⟩ := h
  have hend := (aliasTarget?_of_get? hdecl).trans halias
  cases landing with
  | declared decl' =>
    obtain ⟨halias', hops', -, last', hlast', hdecl'⟩ := h'
    obtain ⟨-, rfl⟩ := end_unique hlast hend hlast' ((aliasTarget?_of_get? hdecl').trans halias')
    rw [hdecl] at hdecl'
    rw [Option.some.inj hdecl']
  | unknown =>
    obtain ⟨hops', -, last', hlast', hnone⟩ := h'
    obtain ⟨-, rfl⟩ := end_unique hlast hend hlast' (aliasTarget?_of_get?_eq_none hnone)
    rw [hdecl] at hnone
    cases hnone
  | tooLong =>
    obtain ⟨last', decl', hlast', -⟩ := h'
    exact absurd (length_le_of_end hlast hend hlast') (Nat.not_le_of_lt hlt)

/-- A name stands for the declaration that its chain lands on. -/
theorem underlying?_eq_some_iff_lands {decl : ClassDecl} :
    t.underlying? name = some decl ↔ t.Lands name aliasLimit (.declared decl) := by
  rw [underlying?_eq_some_iff]
  refine ⟨fun h => ?_, fun h => h.eq_declared (t.lands_follow name)⟩
  rw [← h]
  exact t.lands_follow name

/-- A chain that goes round never ends: from a name to which hops lead back there are as many hops as one likes. -/
theorem exists_hops?_of_round {round : Nat} (h : t.hops? (round + 1) last = some last) (count : Nat) :
    ∃ hops ≥ count, t.hops? hops last = some last := by
  induction count with
  | zero => exact ⟨0, Nat.le_refl 0, rfl⟩
  | succ count ih =>
    obtain ⟨hops, hge, hhops⟩ := ih
    refine ⟨hops + (round + 1), by omega, ?_⟩
    rw [hops?_add, hhops, Option.bind_some, h]

/-- A name stands for a declaration exactly when the declaration is no alias and fewer than `aliasLimit` hops lead to it. A name whose chain
ends at a name that is not registered, goes round, or goes on for `aliasLimit` hops stands for none. -/
theorem underlying?_eq_some_iff_hops (t : ClassTable) (name : String) :
    (∀ decl, t.underlying? name = some decl ↔
      decl.aliasOf = none ∧ ∃ hops < aliasLimit, ∃ last, t.hops? hops name = some last ∧ t.get? last = some decl) ∧
    (∀ hops last, t.hops? hops name = some last → t.get? last = none → t.underlying? name = none) ∧
    (∀ hops round last, t.hops? hops name = some last → t.hops? (round + 1) last = some last → t.underlying? name = none) ∧
    (∀ last, t.hops? aliasLimit name = some last → t.underlying? name = none) := by
  have hlong : ∀ hops ≥ aliasLimit, ∀ last, t.hops? hops name = some last → t.underlying? name = none := by
    intro hops hge last hlast
    refine Option.eq_none_iff_forall_ne_some.mpr fun decl hdecl => ?_
    obtain ⟨halias, shorter, hlt, stop, hstop, hget⟩ := underlying?_eq_some_iff_lands.mp hdecl
    have hle := length_le_of_end hstop ((aliasTarget?_of_get? hget).trans halias) hlast
    omega
  refine ⟨fun decl => underlying?_eq_some_iff_lands, ?_, ?_, fun last => hlong aliasLimit (Nat.le_refl _) last⟩
  · intro hops last hlast hnone
    refine Option.eq_none_iff_forall_ne_some.mpr fun decl hdecl => ?_
    obtain ⟨halias, hops', -, last', hlast', hget⟩ := underlying?_eq_some_iff_lands.mp hdecl
    obtain ⟨-, rfl⟩ := end_unique hlast (aliasTarget?_of_get?_eq_none hnone) hlast' ((aliasTarget?_of_get? hget).trans halias)
    rw [hget] at hnone
    cases hnone
  · intro hops round last hlast hround
    obtain ⟨more, hge, hmore⟩ := exists_hops?_of_round hround aliasLimit
    refine hlong (hops + more) (by omega) last ?_
    rw [hops?_add, hlast, Option.bind_some, hmore]

/-! ## Samples -/

/-- The names of a chain in order. -/
def sampleLink (number : Nat) : String :=
  "p/Link" ++ toString number

/-- A chain of `aliasLimit` aliases before a class, an alias of a name that is not registered, and two aliases of each other. -/
def sampleLinks : ClassTable :=
  .registerAll .empty ((List.range aliasLimit).map (fun i => .ofAlias (sampleLink i) (sampleLink (i + 1))) ++
    [.ofClass (sampleLink aliasLimit), .ofAlias "p/Lost" "p/Missing", .ofAlias "p/Here" "p/There", .ofAlias "p/There" "p/Here"])

/-- The chains of the sample, and where following the longest one lands. -/
theorem hops?_sampleLinks :
    sampleLinks.hops? 63 "p/Link1" = some "p/Link64" ∧ sampleLinks.hops? aliasLimit "p/Link0" = some "p/Link64" ∧
      sampleLinks.get? "p/Link64" = some (.ofClass "p/Link64") ∧ sampleLinks.follow "p/Link0" = .tooLong ∧
      sampleLinks.hops? 1 "p/Lost" = some "p/Missing" ∧ sampleLinks.get? "p/Missing" = none ∧
      sampleLinks.hops? 2 "p/Here" = some "p/Here" := by
  decide +kernel

/-- From the second link on the chain is short enough; the first link, the lost alias and those of each other stand for nothing. -/
theorem underlying?_eq_some_iff_hops_sampleLinks :
    sampleLinks.hops? 63 "p/Link1" = some "p/Link64" ∧ sampleLinks.get? "p/Link64" = some (.ofClass "p/Link64") ∧
      sampleLinks.underlying? "p/Link1" = some (.ofClass "p/Link64") ∧
    sampleLinks.hops? aliasLimit "p/Link0" = some "p/Link64" ∧ sampleLinks.underlying? "p/Link0" = none ∧
    sampleLinks.hops? 1 "p/Lost" = some "p/Missing" ∧ sampleLinks.get? "p/Missing" = none ∧ sampleLinks.underlying? "p/Lost" = none ∧
    sampleLinks.hops? 2 "p/Here" = some "p/Here" ∧ sampleLinks.underlying? "p/Here" = none := by
  obtain ⟨hshort, hlong, hclass, -, hlost, hmissing, hround⟩ := hops?_sampleLinks
  refine ⟨hshort, hclass, ?_, hlong, ?_, hlost, hmissing, ?_, hround, ?_⟩
  · exact ((underlying?_eq_some_iff_hops sampleLinks "p/Link1").1 _).mpr ⟨rfl, 63, by decide, "p/Link64", hshort, hclass⟩
  · exact (underlying?_eq_some_iff_hops sampleLinks "p/Link0").2.2.2 "p/Link64" hlong
  · exact (underlying?_eq_some_iff_hops sampleLinks "p/Lost").2.1 1 "p/Missing" hlost hmissing
  · exact (underlying?_eq_some_iff_hops sampleLinks "p/Here").2.2.1 0 1 "p/Here" rfl hround

/-- No more than `aliasLimit` hops lead from the first link to a class, which is no alias, and yet the link does not stand for the class: its
chain is reported to exceed the limit. -/
theorem not_underlying?_sampleLinks :
    (∃ hops ≤ aliasLimit, sampleLinks.hops? hops "p/Link0" = some "p/Link64") ∧
      sampleLinks.get? "p/Link64" = some (.ofClass "p/Link64") ∧ (ClassDecl.ofClass "p/Link64").aliasOf = none ∧
      sampleLinks.underlying? "p/Link0" ≠ some (.ofClass "p/Link64") ∧
      (Journal.follow sampleLinks "p/Link0").map Event.render = ["DEBUG redirect chain from 'p/Link0' exceeds 64 steps"] := by
  obtain ⟨-, hlong, hclass, htooLong, -⟩ := hops?_sampleLinks
  refine ⟨⟨aliasLimit, Nat.le_refl _, hlong⟩, hclass, rfl, ?_, ?_⟩
  · rw [underlying?, htooLong]
    exact (Option.some_ne_none _).symm
  · rw [Journal.follow, if_pos htooLong]
    rfl

end ClassTable

end Linkage
