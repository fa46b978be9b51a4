import Linkage.Emission.Conversion
import Linkage.Proofs.Emission.Tracking

/-!
# Conversions do what they should

The code of a conversion takes a value that may be passed for a parameter to one that fits the parameter, be it by widening, boxing or
unboxing, and leaves the rest of the stack alone.
-/

namespace Linkage

open Emit Emission

/-- The code between the emissions `s` and `t` turns the value on top of the stack into one that fits `target`, made from the same
parameters. -/
def Emission.Converts (classes : ClassTable) (locals : List (Option (Nat × JType))) (s : Emission) (f : Frame) (sources : List Nat)
    (rest : List Operand) (target : JType) (t : Emission) : Prop :=
  ∃ type peak, classes.fits type target = true ∧
    Carries classes locals s f t { f with stack := .value type sources :: rest, peak := peak }

/-- The instruction of a widening is read as the conversion between the sorts of the two types. -/
theorem Opcode.widening?_eq_some {p q : Primitive} {opcode : UInt8} (h : widening? p q = some opcode) :
    ∃ source target, Instruction.Decodes [opcode] [.convert source target] ∧ SlotKind.ofType? (.prim p) = some source ∧
      target.type = .prim q := by
  cases p <;> cases q <;> cases h <;> exact ⟨_, _, Instruction.decodes_single rfl rfl, rfl, rfl⟩

/-- The names of wrapper classes can stand in descriptors. -/
theorem Primitive.isName_wrapper (p : Primitive) : JType.IsName p.wrapper := by
  cases p <;> exact ⟨by decide, by decide⟩

namespace Emit

variable {handles : UInt8 → MemberKind → Prop} {bootstraps : Nat} {classes : ClassTable} {locals : List (Option (Nat × JType))}
  {s : Emission} {f : Frame} {sources : List Nat} {rest : List Operand}

/-- A value that fits as it is needs no code. -/
theorem converts_refl {type target : JType} (hs : s.code.Tracks f) (hstack : f.stack = .value type sources :: rest)
    (hfits : classes.fits type target = true) : Converts classes locals s f sources rest target s := by
  refine ⟨type, f.peak, hfits, ?_⟩
  rw [← hstack]
  exact .refl hs

/-- Widening takes a value of a primitive type to one that fits a wider type. -/
theorem converts_widening {p q : Primitive} (hs : s.code.Tracks f) (hstack : f.stack = .value (.prim p) sources :: rest)
    (hwiden : p = q ∨ p.widensTo q = true) (hroom : Operand.slots rest + 2 < 65536) :
    Adds handles bootstraps (widening p q) s fun _ t => Converts classes locals s f sources rest (.prim q) t := by
  unfold widening
  split
  · rename_i hsame
    refine ⟨.refl, converts_refl hs hstack ?_⟩
    rcases hwiden with rfl | hwider
    · exact ClassTable.fits_of_equiv (Setoid.refl _)
    · simp only [Bool.or_eq_true, decide_eq_true_eq, Bool.and_eq_true] at hsame
      rcases hsame with rfl | ⟨hp, hq⟩
      · exact ClassTable.fits_of_equiv (Setoid.refl _)
      · simp [ClassTable.fits, hp, hq, hwider]
  · split
    · exact .refl
    · rename_i opcode hopcode
      obtain ⟨source, target, hdecodes, hsource, htarget⟩ := Opcode.widening?_eq_some hopcode
      refine Adds.bind (adds_write _) ?_
      intro _ s₁ _ hview
      obtain ⟨hpool₁, hcode₁⟩ := hview
      refine Adds.bind (adds_inCode (CodeBuffer.ensures_pop 1 s₁.code)) ?_
      intro _ s₂ _ hview
      obtain ⟨hpool₂, hpop⟩ := hview
      refine (adds_write _).mono ?_
      intro _ t _ hview
      obtain ⟨hpool, ht⟩ := hview
      have hdrop : f.stack.drop 1 = rest := by
        rw [hstack]
        rfl
      obtain ⟨_, entry, _, hentry⟩ := (CodeBuffer.ofType?_cases (.prim q)).resolve_left (by simp)
      rw [hcode₁] at hpop
      rw [CodeBuffer.pushType_eq_push hentry] at ht
      refine ⟨.prim q, _, ClassTable.fits_of_equiv (Setoid.refl _),
        carries_push (g := { f with stack := rest }) ?_ (CodeBuffer.writes_emitOp s.code hdecodes) hpop ht hs hdrop.symm rfl
          (StackType.width_ofType? hentry) ?_ ?_⟩
      · rw [hpool, hpool₂, hpool₁]
        exact .refl _
      · exact Nat.lt_of_le_of_lt (Operand.slots_value_le (.prim q) sources rest) hroom
      · intro p _
        simp [Frame.exec?, hstack, hsource, htarget]

/-- A conversion that goes on where other code has left the value. -/
theorem converts_trans {t u : Emission} {type target : JType} {peak : Nat}
    (hst : Carries classes locals s f t { f with stack := .value type sources :: rest, peak := peak })
    (htu : Converts classes locals t { f with stack := .value type sources :: rest, peak := peak } sources rest target u) :
    Converts classes locals s f sources rest target u := by
  obtain ⟨final, peak', hfits, hcarries⟩ := htu
  exact ⟨final, peak', hfits, hst.trans hcarries⟩

/-- Boxing takes a primitive value to an object of its wrapper class. -/
theorem converts_boxing {p : Primitive} {target : JType} (he : s.pool.Fits) (hs : s.code.Tracks f)
    (hstack : f.stack = .value (.prim p) sources :: rest) (hboxed : classes.isSubtype (JType.prim p).boxed target = true)
    (hroom : Operand.slots rest + 2 < 65536) :
    Adds handles bootstraps (boxing p) s fun _ t => Converts classes locals s f sources rest target t := by
  refine (adds_invoke .onClass .method p.wrapper WellKnown.boxing [.prim p] (.ofClass p.wrapper) he).mono ?_
  intro _ t h hview
  obtain ⟨i, c, d, hc, hd, ht, hi⟩ := hview
  have hdrop : f.stack.drop ([JType.prim p].length + CallKind.onClass.targets) = rest := by
    rw [hstack]
    rfl
  refine ⟨.ofClass p.wrapper, _, ClassTable.fits_of_isSubtype hboxed,
    carries_push (g := { f with stack := rest }) h.toExtends hc hd ht hs hdrop.symm rfl rfl ?_ ?_⟩
  · exact Nat.lt_of_le_of_lt (Operand.slots_value_le (.ofClass p.wrapper) sources rest) hroom
  · intro q hq
    have hparam : classes.fits (.prim p) (.prim p) = true :=
      ClassTable.fits_of_equiv (Setoid.refl _)
    rw [Frame.exec?_call (hq.kindAndMember? hi) (by simp [JType.Plain]) p.isName_wrapper.1 rfl]
    exact Frame.call_onClass hstack hparam (by simp [JType.ofClass, JType.untag])

/-- Unboxing takes an object of a wrapper class to the value that it holds. -/
theorem carries_unboxing {p : Primitive} {kind : NamedKind} {owner : String} (he : s.pool.Fits) (hs : s.code.Tracks f)
    (hstack : f.stack = .value (.named kind owner) sources :: rest) (howner : p.wrapper = owner)
    (hroom : Operand.slots rest + 2 < 65536) :
    Adds handles bootstraps (invoke Opcode.invokevirtual .method owner p.unboxing [] (.prim p)) s fun _ t =>
      ∃ peak, Carries classes locals s f t { f with stack := .value (.prim p) sources :: rest, peak := peak } := by
  refine (adds_invoke .onObject .method owner p.unboxing [] (.prim p) he).mono ?_
  intro _ t h hview
  obtain ⟨i, c, d, hc, hd, ht, hi⟩ := hview
  have hdrop : f.stack.drop (([] : List JType).length + CallKind.onObject.targets) = rest := by
    rw [hstack]
    rfl
  obtain ⟨_, entry, _, hentry⟩ := (CodeBuffer.ofType?_cases (.prim p)).resolve_left (by simp)
  rw [CodeBuffer.pushType_eq_push hentry] at ht
  refine ⟨_, carries_push (g := { f with stack := rest }) h.toExtends hc hd ht hs hdrop.symm rfl
    (StackType.width_ofType? hentry) ?_ ?_⟩
  · exact Nat.lt_of_le_of_lt (Operand.slots_value_le (.prim p) sources rest) hroom
  · intro q hq
    have hname : JType.ofConstantName? owner = some (.ofClass owner) :=
      JType.ofConstantName?_of_isName (howner ▸ p.isName_wrapper)
    have hobject : classes.fits (.named kind owner) (.ofClass owner) = true :=
      ClassTable.fits_of_equiv rfl
    rw [Frame.exec?_call (hq.kindAndMember? hi) (by simp) trivial rfl]
    exact Frame.call_onObject hstack hname hobject (by simp [JType.untag])

/-- Conversion takes a value that may be passed for a type to one that fits the type. -/
theorem converts_convert {source target : JType} (he : s.pool.Fits) (hs : s.code.Tracks f)
    (hstack : f.stack = .value source sources :: rest) (hassignable : classes.isAssignable source target = true)
    (hroom : Operand.slots rest + 2 < 65536) :
    Adds handles bootstraps (convert source target) s fun _ t => Converts classes locals s f sources rest target t := by
  unfold convert
  by_cases hequiv : source ≈ target
  · rw [if_pos hequiv]
    exact ⟨.refl, converts_refl hs hstack (ClassTable.fits_of_equiv hequiv)⟩
  · rw [if_neg hequiv]
    have huntag : source.untag ≠ target.untag := fun h => hequiv (JType.equiv_def.mpr h)
    split
    · rename_i p q
      refine converts_widening hs hstack (.inr ?_) hroom
      simpa [ClassTable.isAssignable, ClassTable.isSubtype, huntag] using hassignable
    · refine converts_boxing he hs hstack ?_ hroom
      simpa [ClassTable.isAssignable, ClassTable.isSubtype, huntag] using hassignable
    · refine converts_boxing he hs hstack ?_ hroom
      simpa [ClassTable.isAssignable, ClassTable.isSubtype, huntag] using hassignable
    · rename_i kind owner q
      split
      · exact .refl
      · rename_i p hwrapper
        have hunboxed : Adds handles bootstraps (invoke Opcode.invokevirtual .method owner p.unboxing [] (.prim p)) s fun _ t =>
            ∃ peak, Carries classes locals s f t { f with stack := .value (.prim p) sources :: rest, peak := peak } :=
          carries_unboxing he hs hstack (Primitive.wrapper_of_ofWrapper? hwrapper) hroom
        refine Adds.bind hunboxed ?_
        intro _ s₁ _ hview
        obtain ⟨peak, h₁⟩ := hview
        refine (converts_widening h₁.tracks rfl ?_ hroom).mono fun _ t _ h => converts_trans h₁ h
        simpa [ClassTable.isAssignable, ClassTable.isSubtype, huntag, hwrapper] using hassignable
    · exact .refl
    · refine ⟨.refl, converts_refl hs hstack (ClassTable.fits_of_isSubtype ?_)⟩
      -- of references and `void` only subtypes are assignable
      cases source <;> cases target <;> simp_all [ClassTable.isAssignable]

end Emit

end Linkage
