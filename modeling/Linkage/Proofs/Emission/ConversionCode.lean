import Linkage.Proofs.Emission.Conversion
import Linkage.Proofs.Emission.Receiver
import Linkage.Proofs.Emission.Room

/-!
# The code of conversions

The check whether a value may be passed and the code that converts it are two case analyses over the same types. They agree: a conversion
between types that pass the check is written, as one call of a wrapper class at most and one widening at most (`ConversionCode`), and leaves
on the tracked stack an entry of the type it should (`Emit.convert_eq_ok`).
-/

namespace Linkage

open Emit

/-! ## Calls and widenings -/

namespace CodeBuffer

theorem stack_pushType (b : CodeBuffer) (type : JType) : (b.pushType type).stack = (StackType.ofType? type).toList ++ b.stack := by
  unfold pushType
  cases StackType.ofType? type <;> rfl

/-- A call is written where the tracked stack has what it takes. -/
theorem ensures_invoke_of_le (kind : CallKind) (index : UInt16) {params : List JType} (result : JType) {b : CodeBuffer}
    (hstack : params.length + kind.targets ≤ b.stack.length) :
    Ensures (invoke kind.opcode index params result) b
      (fun _ t => b.Appends t [.call kind index] ∧
        t.stack = (StackType.ofType? result).toList ++ b.stack.drop (params.length + kind.targets))
      (fun _ _ => False) := by
  refine (ensures_invoke kind index params result b).mono ?_ (fun _ _ h => absurd h.2 (Nat.not_lt.mpr hstack))
  rintro _ t ⟨c, d, hc, hd, rfl⟩
  have hbytes : d.bytes = c.bytes := by rw [hd.eq]
  refine ⟨hc.appends.of_bytes ((bytes_pushType d result).trans hbytes), ?_⟩
  rw [stack_pushType, hd.eq, hc.stack]

end CodeBuffer

namespace Emit

variable {e : Emission} {entry : StackType} {rest : List StackType}

/-- Where there is room, a call is written that names the method. -/
theorem ensures_invoke_of_room (call : CallKind) (kind : MemberKind) (owner name : String) (params : List JType) (result : JType)
    (hroom : e.pool.entries.size + 6 ≤ Pool.capacity) (hstack : params.length + call.targets ≤ e.code.stack.length) :
    Ensures (invoke call.opcode kind owner name params result) e
      (fun _ t => e.pool.Within 6 t.pool ∧
        (∃ i, e.code.Appends t.code [.call call i] ∧
          t.pool.kindAndMember? i = some (kind, owner, name, methodDescriptor params result)) ∧
        t.code.stack = (StackType.ofType? result).toList ++ e.code.stack.drop (params.length + call.targets))
      (fun _ _ => False) := by
  have hfits : e.pool.Fits := Nat.le_trans (Nat.le_add_right _ 6) hroom
  have hadds : Pool.Adds (fun _ _ => True) 0 (Pool.addMember kind owner name (methodDescriptor params result)) e.pool _ :=
    Pool.adds_addMember kind owner name _ hfits
  unfold invoke
  rw [ensures_bind, inPool, ensures_focus]
  refine ((Pool.takes_addMember kind owner name _ e.pool hroom).and hadds).mono ?_ (fun _ _ h => h.1)
  rintro i p ⟨hwithin, -, hi⟩
  rw [inCode, ensures_focus]
  refine (CodeBuffer.ensures_invoke_of_le call i result hstack).mono ?_ (fun _ _ h => h)
  rintro _ c ⟨hcode, hc⟩
  exact ⟨hwithin, ⟨i, hcode, hi⟩, hc⟩

end Emit

/-- The code that takes a value of a primitive type to another: none where the machine holds values of both alike, else one instruction. -/
inductive Widens (p q : Primitive) : List Instruction → Prop where
  | alike (h : SlotKind.ofType? (.prim p) = SlotKind.ofType? (.prim q)) : Widens p q []
  | convert {source target : SlotKind} (hsource : SlotKind.ofType? (.prim p) = some source)
    (htarget : SlotKind.ofType? (.prim q) = some target) : Widens p q [.convert source target]

/-- The instruction calls the method that boxes values of the type. -/
def Boxes (pool : Pool) (p : Primitive) (i : Instruction) : Prop :=
  ∃ index, i = .call .onClass index ∧
    pool.kindAndMember? index = some (.method, p.wrapper, WellKnown.boxing, methodDescriptor [.prim p] (.ofClass p.wrapper))

/-- The instruction calls the method that returns the value which an object of the type's wrapper class holds. -/
def Unboxes (pool : Pool) (p : Primitive) (i : Instruction) : Prop :=
  ∃ index, i = .call .onObject index ∧
    pool.kindAndMember? index = some (.method, p.wrapper, p.unboxing, methodDescriptor [] (.prim p))

/-- The code that converts a value of the first type to one of the second. -/
inductive ConversionCode (pool : Pool) : JType → JType → List Instruction → Prop where
  | widening {p q : Primitive} {is : List Instruction} : Widens p q is → ConversionCode pool (.prim p) (.prim q) is
  | boxing {p : Primitive} {target : JType} {i : Instruction} : target.isReference = true → Boxes pool p i →
    ConversionCode pool (.prim p) target [i]
  | unboxing {kind : NamedKind} {p q : Primitive} {i : Instruction} {is : List Instruction} : Unboxes pool p i → Widens p q is →
    ConversionCode pool (.named kind p.wrapper) (.prim q) (i :: is)
  | reference {source target : JType} : source.isReference = true → target.isReference = true → ConversionCode pool source target []

/-- The type of a value once it is converted: the one it was converted to if that is primitive, else its own, boxed if it is primitive. -/
def JType.converted (source target : JType) : JType :=
  if target.isPrimitive then target else source.boxed

theorem JType.converted_of_isReference {source target : JType} (h : target.isReference = true) :
    source.converted target = source.boxed := by
  cases target with
  | prim p => cases h
  | void => cases h
  | named k n => rfl
  | array c => rfl

/-- Between the emissions the entry on top of the tracked stack was converted from one type to another. -/
structure Emission.Converted (source target : JType) (rest : List StackType) (e t : Emission) : Prop where
  pool : e.pool.Within 6 t.pool
  code : ∃ is, e.code.Appends t.code is ∧ ConversionCode t.pool source target is
  stack : ∃ top, StackType.ofType? (source.converted target) = some top ∧ t.code.stack = top :: rest

namespace Emit

variable {e : Emission} {entry : StackType} {rest : List StackType} {classes : ClassTable}

/-- A value of a type that is the same or wider on the machine has an instruction that makes it, where it needs one. -/
theorem widening?_isSome {p q : Primitive} (hwiden : p = q ∨ p.widensTo q = true)
    (hdiffer : ¬ (p = q || (p.computesAsInt && q.computesAsInt)) = true) : (Opcode.widening? p q).isSome = true := by
  revert hwiden hdiffer
  cases p <;> cases q <;> decide

/-- A widening to the same or a wider type is written. -/
theorem ensures_widening {p q : Primitive} (hwiden : p = q ∨ p.widensTo q = true) (hentry : StackType.ofType? (.prim p) = some entry)
    (hstack : e.code.stack = entry :: rest) :
    Ensures (widening p q) e
      (fun _ t => t.pool = e.pool ∧ (∃ is, e.code.Appends t.code is ∧ Widens p q is) ∧
        ∃ top, StackType.ofType? (.prim q) = some top ∧ t.code.stack = top :: rest)
      (fun _ _ => False) := by
  unfold widening
  split
  · rename_i hsame
    have hsorts : SlotKind.ofType? (.prim p) = SlotKind.ofType? (.prim q) ∧ StackType.ofType? (.prim p) = StackType.ofType? (.prim q) := by
      revert hsame
      cases p <;> cases q <;> decide
    rw [ensures_pure]
    exact ⟨rfl, ⟨[], .refl e.code, .alike hsorts.1⟩, entry, hsorts.2 ▸ hentry, hstack⟩
  · rename_i hdiffer
    obtain ⟨opcode, hopcode⟩ := Option.isSome_iff_exists.mp (widening?_isSome hwiden hdiffer)
    obtain ⟨source, target, hdecodes, hsource, htarget⟩ := Opcode.widening?_eq_some hopcode
    obtain ⟨_, top, _, htop⟩ := (CodeBuffer.ofType?_cases (.prim q)).resolve_left (by simp)
    have hwrites := CodeBuffer.writes_emitOp e.code hdecodes
    rw [hopcode]
    dsimp only
    rw [ensures_bind]
    refine ensures_write _ ?_
    rw [ensures_bind, inCode, ensures_focus]
    refine (CodeBuffer.ensures_pop 1 _).mono ?_ ?_
    · intro _ c hc
      have hbytes : (c.pushType (.prim q)).bytes = (e.code.emitOp opcode).bytes := by
        rw [CodeBuffer.bytes_pushType, hc.eq]
      refine ensures_write _ ⟨rfl, ⟨_, hwrites.appends.of_bytes hbytes, .convert hsource ?_⟩, top, htop, ?_⟩
      · cases target <;> cases htarget <;> rfl
      · rw [CodeBuffer.stack_pushType, htop, hc.eq, hwrites.stack, hstack]
        rfl
    · intro fault c hfault
      have hshort := hfault.2.2
      rw [hwrites.stack, hstack, List.length_cons] at hshort
      omega

/-- Boxing is written. -/
theorem ensures_boxing {p : Primitive} {target : JType} (htarget : target.isReference = true) (hstack : e.code.stack = entry :: rest)
    (hroom : e.pool.entries.size + 6 ≤ Pool.capacity) :
    Ensures (boxing p) e (fun _ t => e.Converted (.prim p) target rest t) (fun _ _ => False) := by
  refine (ensures_invoke_of_room .onClass .method p.wrapper WellKnown.boxing [.prim p] (.ofClass p.wrapper) hroom ?_).mono ?_
    (fun _ _ h => h)
  · simp [hstack, CallKind.targets]
  · rintro _ t ⟨hpool, ⟨i, hcode, hi⟩, ht⟩
    refine ⟨hpool, ⟨_, hcode, .boxing htarget ⟨i, rfl, hi⟩⟩, .object p.wrapper, ?_, ?_⟩
    · rw [JType.converted_of_isReference htarget]
      rfl
    · rw [ht, hstack]
      rfl

/-- Unboxing is written, and the widening behind it. -/
theorem ensures_unboxing {kind : NamedKind} {p q : Primitive} (hwiden : p = q ∨ p.widensTo q = true) (hstack : e.code.stack = entry :: rest)
    (hroom : e.pool.entries.size + 6 ≤ Pool.capacity) :
    Ensures (do invoke Opcode.invokevirtual .method p.wrapper p.unboxing [] (.prim p); widening p q) e
      (fun _ t => e.Converted (.named kind p.wrapper) (.prim q) rest t) (fun _ _ => False) := by
  obtain ⟨_, held, _, hheld⟩ := (CodeBuffer.ofType?_cases (.prim p)).resolve_left (by simp)
  rw [ensures_bind]
  refine (ensures_invoke_of_room .onObject .method p.wrapper p.unboxing [] (.prim p) hroom ?_).mono ?_ (fun _ _ h => h)
  · simp [hstack, CallKind.targets]
  · rintro _ t ⟨hpool, ⟨i, hcode, hi⟩, ht⟩
    have hstack' : t.code.stack = held :: rest := by
      rw [ht, hstack, hheld]
      rfl
    refine (ensures_widening hwiden hheld hstack').mono ?_ (fun _ _ h => h)
    rintro _ u ⟨hpool', ⟨is, hcode', his⟩, htop⟩
    refine ⟨by rw [hpool']; exact hpool, ⟨_, hcode.trans hcode', .unboxing ⟨i, rfl, by rw [hpool']; exact hi⟩ his⟩, htop⟩

/-- A reference that is passed for a reference stays as it is. -/
theorem converted_refl {source target : JType} (hsource : source.isReference = true) (htarget : target.isReference = true)
    (hentry : StackType.ofType? source = some entry) (hstack : e.code.stack = entry :: rest) : e.Converted source target rest e := by
  have hboxed : source.boxed = source := by
    cases source with
    | prim p => cases hsource
    | _ => rfl
  refine ⟨(Pool.Within.refl e.pool).mono (Nat.zero_le 6), ⟨[], .refl e.code, .reference hsource htarget⟩, entry, ?_, hstack⟩
  rw [JType.converted_of_isReference htarget, hboxed, hentry]

/-- A value that is passed for its own type stays as it is. -/
theorem converted_of_equiv {source target : JType} (h : source ≈ target) (hentry : StackType.ofType? source = some entry)
    (hstack : e.code.stack = entry :: rest) : e.Converted source target rest e := by
  have huntag := JType.equiv_def.mp h
  have htarget : target.isReference = source.isReference := by
    rw [← JType.isReference_untag target, ← huntag, JType.isReference_untag]
  cases source with
  | prim p =>
    obtain rfl : target = .prim p := by cases target <;> simp_all [JType.untag]
    exact ⟨(Pool.Within.refl e.pool).mono (Nat.zero_le 6), ⟨[], .refl e.code, .widening (.alike rfl)⟩, entry, hentry, hstack⟩
  | void => cases hentry
  | named k n => exact converted_refl rfl htarget hentry hstack
  | array c => exact converted_refl rfl htarget hentry hstack

/-- A conversion between types that pass the check is written, where the pool has room for the call in it. -/
theorem ensures_convert {source target : JType} (hassignable : classes.isAssignable source target = true)
    (hentry : StackType.ofType? source = some entry) (hstack : e.code.stack = entry :: rest)
    (hroom : e.pool.entries.size + 6 ≤ Pool.capacity) :
    Ensures (convert source target) e (fun _ t => e.Converted source target rest t) (fun _ _ => False) := by
  unfold convert
  by_cases hequiv : source ≈ target
  · rw [if_pos hequiv, ensures_pure]
    exact converted_of_equiv hequiv hentry hstack
  · rw [if_neg hequiv]
    have huntag : source.untag ≠ target.untag := fun h => hequiv (JType.equiv_def.mpr h)
    split
    · rename_i p q
      refine (ensures_widening (.inr ?_) hentry hstack).mono ?_ (fun _ _ h => h)
      · simpa [ClassTable.isAssignable, ClassTable.isSubtype, huntag] using hassignable
      · rintro _ t ⟨hpool, ⟨is, hcode, his⟩, htop⟩
        exact ⟨by rw [hpool]; exact (Pool.Within.refl e.pool).mono (Nat.zero_le 6), ⟨is, hcode, .widening his⟩, htop⟩
    · exact ensures_boxing rfl hstack hroom
    · exact ensures_boxing rfl hstack hroom
    · rename_i kind owner q
      cases hwrapper : Primitive.ofWrapper? owner with
      | none => simp [ClassTable.isAssignable, ClassTable.isSubtype, huntag, hwrapper] at hassignable
      | some p =>
        obtain rfl := Primitive.wrapper_of_ofWrapper? hwrapper
        refine ensures_unboxing ?_ hstack hroom
        simpa [ClassTable.isAssignable, ClassTable.isSubtype, huntag, hwrapper] using hassignable
    · simp [ClassTable.isAssignable, ClassTable.isSubtype, huntag] at hassignable
    · rw [ensures_pure]
      have hreferences : source.isReference = true ∧ target.isReference = true := by
        cases source <;> cases target <;>
          simp_all [ClassTable.isAssignable, ClassTable.isSubtype, JType.untag, JType.isReference, StackType.ofType?]
      exact converted_refl hreferences.1 hreferences.2 hentry hstack

/-- Where the pool has room for a call, the value on top of the tracked stack is converted to every type that it may be passed for. What is
below it stays, and its own entry becomes that of the target if that is primitive, and else stays, but for a primitive value that was
boxed. The code is a call that boxes or unboxes at most, and behind it a widening at most. -/
theorem convert_eq_ok {source target : JType} (hassignable : classes.isAssignable source target = true)
    (hentry : StackType.ofType? source = some entry) (hstack : e.code.stack = entry :: rest)
    (hroom : e.pool.entries.size + 6 ≤ Pool.capacity) :
    ∃ t top code is, convert source target e = .ok () t ∧
      StackType.ofType? (source.converted target) = some top ∧ t.code.stack = top :: rest ∧
      t.code.bytes.toList = e.code.bytes.toList ++ code ∧ Instruction.decodeAll code = some is ∧
      ConversionCode t.pool source target is := by
  have h := ensures_convert hassignable hentry hstack hroom
  unfold Ensures at h
  split at h
  · rename_i t hrun
    obtain ⟨-, ⟨is, ⟨code, hbytes, hdecodes⟩, his⟩, top, htop, ht⟩ := h
    exact ⟨t, top, code, is, hrun, htop, ht, hbytes, hdecodes.decodeAll, his⟩
  · exact h.elim

/-- An `Integer` on top of a `String` becomes a `long`: it is unboxed, then widened. -/
theorem convert_eq_ok_sample : ∃ t top code is,
    convert (.ofClass Primitive.int.wrapper) (.prim .long) ⟨{}, { stack := [.object Primitive.int.wrapper, .object WellKnown.string] }⟩ =
        .ok () t ∧
      StackType.ofType? (.prim .long) = some top ∧ t.code.stack = [top, .object WellKnown.string] ∧
      t.code.bytes.toList = code ∧ Instruction.decodeAll code = some is ∧
      ConversionCode t.pool (.ofClass Primitive.int.wrapper) (.prim .long) is := by
  have hassignable : ClassTable.platform.isAssignable (.ofClass Primitive.int.wrapper) (.prim .long) = true := by decide +kernel
  exact convert_eq_ok hassignable rfl rfl (by decide)

end Emit

end Linkage
