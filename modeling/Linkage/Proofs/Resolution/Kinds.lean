import Linkage.Proofs.Kinds
import Linkage.Proofs.Matched
import Linkage.Proofs.Resolution.Rule
import Mathlib.Data.List.Basic
import Mathlib.Data.Option.Basic

/-!
# Resolution without kinds

References and exact parameters that differ in kinds only denote the same method, and call the same constructor. Each lemma says that a part
of resolution gives the same when all types are untagged, but for the kinds in a fault.
-/

namespace Linkage

/-- Comparing parameter types does not show kinds on the left. -/
theorem sameTypes_untag_left (ps qs : List Param) : sameTypes (ps.map Param.untag) qs = sameTypes ps qs := by
  rw [Bool.eq_iff_iff, sameTypes_iff, sameTypes_iff, List.map_map]
  simp [Function.comp_def]

namespace ClassTable

variable (t : ClassTable)

/-- Whether a type can be passed does not depend on its kinds. -/
theorem isAssignable_untag_left (source target : JType) : t.isAssignable source.untag target = t.isAssignable source target := by
  unfold isAssignable
  rw [t.isSubtype_untag_left]
  cases source <;> cases target <;> rfl

/-- Whether parameters accept arguments does not depend on the kinds of the arguments. -/
theorem accepts_untag_left (args params : List Param) : t.accepts (args.map Param.untag) params = t.accepts args params := by
  induction args generalizing params with
  | nil => rfl
  | cons arg args ih =>
    cases params with
    | nil => rfl
    | cons param params => simp only [List.map_cons, accepts, Param.type_untag, isAssignable_untag_left, ih]

end ClassTable

/-! ## Candidates -/

namespace Candidate

/-- The candidate with its arguments untagged. -/
def untag (c : Candidate) : Candidate :=
  { c with arguments := c.arguments.map Param.untag }

/-- The method of a candidate stays what it is. -/
@[simp] theorem method_untag (c : Candidate) : c.untag.method = c.method :=
  rfl

/-- Whether a candidate takes a receiver stays what it is. -/
@[simp] theorem takesReceiver_untag (c : Candidate) : c.untag.takesReceiver = c.takesReceiver :=
  rfl

/-- Whether a candidate fits exactly does not depend on the kinds of its arguments. -/
theorem isExact_untag (c : Candidate) : c.untag.isExact = c.isExact :=
  sameTypes_untag_left c.arguments c.method.params

/-- The earliest of untagged candidates is the earliest one, untagged. -/
theorem earliest?_untag (cs : List Candidate) : earliest? (cs.map untag) = (earliest? cs).map untag := by
  induction cs with
  | nil => rfl
  | cons c cs ih =>
    rw [List.map_cons, earliest?, ih, earliest?]
    cases earliest? cs with
    | none => rfl
    | some d =>
      change (if d.order < c.order then some d.untag else some c.untag) = Option.map untag (if d.order < c.order then some d else some c)
      split <;> rfl

/-- What is picked among untagged candidates is what is picked, untagged. -/
theorem pick?_untag (classes : ClassTable) (cs : List Candidate) : pick? classes (cs.map untag) = (pick? classes cs).map untag := by
  have hexact : isExact ∘ untag = isExact := funext isExact_untag
  have hspecific : (fun c => isMostSpecific classes c (cs.map untag)) ∘ untag = fun c => isMostSpecific classes c cs := by
    funext c
    simp only [Function.comp_apply, isMostSpecific, List.all_map, method_untag, Function.comp_def]
  unfold pick?
  rw [List.find?_map, List.find?_map, hexact, hspecific, earliest?_untag]
  cases cs.find? isExact with
  | some c => rfl
  | none => cases cs.find? fun c => isMostSpecific classes c cs <;> rfl

/-- The best of untagged candidates is the best one, untagged. -/
theorem best_untag (classes : ClassTable) (target : String) (isType : Bool) (cs : List Candidate) :
    best (score classes target isType) (cs.map untag) = (best (score classes target isType) cs).map untag := by
  have hscore : score classes target isType ∘ untag = score classes target isType := rfl
  simp only [best, topScore, List.map_map, hscore, List.filter_map]
  rfl

end Candidate

namespace Scope

variable (s : Scope)

/-- The arguments that are left for a method, untagged. -/
theorem arguments?_untag (isType : Bool) (exact : List Param) (m : MethodDecl) :
    arguments? isType (exact.map Param.untag) m = (arguments? isType exact m).map (List.map Param.untag) := by
  unfold arguments?
  split
  · cases exact <;> rfl
  · rfl

/-- A method is a candidate for untagged arguments when it is one, and then the same, untagged. -/
theorem candidate?_untag (isType : Bool) (exact : List Param) (m : MethodDecl) (order : Nat) :
    s.candidate? isType (exact.map Param.untag) m order = (s.candidate? isType exact m order).map Candidate.untag := by
  unfold candidate?
  rw [arguments?_untag]
  cases arguments? isType exact m with
  | none => rfl
  | some arguments =>
    change (guard (s.classes.accepts (arguments.map Param.untag) m.params = true) >>= _) = Option.map _ (guard _ >>= _)
    rw [s.classes.accepts_untag_left]
    cases s.classes.accepts arguments m.params <;> rfl

/-- The candidates for untagged arguments are the candidates, untagged. -/
theorem candidates_untag (isType : Bool) (exact : List Param) (typeName member : String) :
    s.candidates isType (exact.map Param.untag) typeName member = (s.candidates isType exact typeName member).map Candidate.untag := by
  unfold candidates
  rw [List.map_filterMap]
  simp only [candidate?_untag]

/-- The choice among untagged candidates is the choice, untagged. -/
theorem choose?_untag (target : String) (isType : Bool) (cs : List Candidate) :
    s.choose? target isType (cs.map Candidate.untag) = (s.choose? target isType cs).map Candidate.untag := by
  rw [choose?_eq_pick?, choose?_eq_pick?, Candidate.best_untag, Candidate.pick?_untag]

/-- The check of the receiver finds the same, kinds apart. -/
theorem requireReceiver_withoutKinds (target : Target) (exact : List Param) (c : Candidate) :
    (s.requireReceiver target.withoutKinds (exact.map Param.untag) c.untag).mapError Fault.withoutKinds =
      (s.requireReceiver target exact c).mapError Fault.withoutKinds := by
  unfold requireReceiver
  rw [Candidate.takesReceiver_untag]
  cases exact with
  | nil => cases c.takesReceiver <;> rfl
  | cons receiver exact =>
    cases c.takesReceiver with
    | false => rfl
    | true =>
      simp only [List.map_cons, Param.type_untag, s.classes.isSubtype_untag_left, Target.staticType_withoutKinds,
        s.classes.isSubtype_untag, Target.span_withoutKinds]
      split
      · rfl
      · simp only [Except.mapError, Fault.withoutKinds, JType.untag_untag]

/-- The method that a reference denotes, faults apart: the chosen candidate's, if its receiver fits. -/
theorem toOption_resolve (r : Reference) (exact : List Param) :
    (s.resolve r exact).toOption = (lookupName? r.target.staticType).bind fun typeName =>
      (s.choose? (s.classes.canonicalName typeName) r.target.isType (s.candidates r.target.isType exact typeName r.member)).bind fun c =>
        (s.requireReceiver r.target exact c).toOption.map fun _ => c.method := by
  unfold resolve
  dsimp only
  split
  · rename_i h
    rw [h]
    rfl
  · rename_i typeName h
    rw [h]
    dsimp only [Option.bind_some]
    split
    · rename_i hchoice
      rw [hchoice]
      rfl
    · rename_i c hchoice
      rw [hchoice]
      exact toOption_map _ _

/-- The name under which methods are looked up does not depend on kinds. -/
theorem lookupName?_untag (type : JType) : lookupName? type.untag = lookupName? type := by
  cases type <;> rfl

/-- A reference without kinds denotes the same method, or fails with the same fault but for kinds. -/
theorem resolve_withoutKinds (r : Reference) (exact : List Param) :
    (s.resolve r.withoutKinds (exact.map Param.untag)).mapError Fault.withoutKinds =
      (s.resolve r exact).mapError Fault.withoutKinds := by
  unfold resolve
  simp only [Reference.withoutKinds, Target.staticType_withoutKinds, lookupName?_untag, Target.isType_withoutKinds, candidates_untag,
    choose?_untag]
  cases lookupName? r.target.staticType with
  | none => simp only [Except.mapError, Fault.withoutKinds, ShapeFault.withoutKinds, JType.untag_untag]
  | some typeName =>
    dsimp only
    cases s.choose? (s.classes.canonicalName typeName) r.target.isType
        (s.candidates r.target.isType exact typeName r.member) with
    | none =>
      simp only [Option.map_none, Except.mapError, Fault.withoutKinds, Param.type_untag, JType.untag_untag, List.map_map,
        Function.comp_def]
    | some c =>
      simp only [Option.map_some, mapError_map, requireReceiver_withoutKinds, Candidate.method_untag]

/-- References and exact parameters that differ in kinds only denote the same method, or fail alike. -/
theorem resolve_alike {r r' : Reference} {exact exact' : List Param} (hr : r.withoutKinds = r'.withoutKinds)
    (hexact : exact.map Param.untag = exact'.map Param.untag) :
    (s.resolve r exact).mapError Fault.withoutKinds = (s.resolve r' exact').mapError Fault.withoutKinds := by
  rw [← resolve_withoutKinds, hr, hexact, resolve_withoutKinds]

/-- The constructors that fit untagged arguments are those that fit, untagged. -/
theorem constructorCandidates_untag (decl : ClassDecl) (arguments : List Param) :
    s.constructorCandidates decl (arguments.map Param.untag) = (s.constructorCandidates decl arguments).map Candidate.untag := by
  unfold constructorCandidates
  rw [List.map_filterMap]
  simp only [s.classes.accepts_untag_left]
  congr 1
  funext entry
  split <;> rfl

/-- The same constructor is called with untagged arguments. -/
theorem constructorFor_untag (className : String) (arguments : List Param) (span : Span) :
    (s.constructorFor className (arguments.map Param.untag) span).mapError Fault.withoutKinds =
      (s.constructorFor className arguments span).mapError Fault.withoutKinds := by
  have hfault : ∀ types, Fault.withoutKinds (.unresolved WellKnown.creation (types.map JType.untag) (.ofClass className) span) =
      Fault.withoutKinds (.unresolved WellKnown.creation types (.ofClass className) span) := by
    intro types
    simp only [Fault.withoutKinds, List.map_map, Function.comp_def, JType.untag_untag]
  unfold constructorFor
  rw [Param.map_type_untag]
  cases s.classes.underlying? className with
  | none => exact congrArg Except.error (hfault _)
  | some decl =>
    simp only [Option.bind_some, constructorCandidates_untag, Candidate.pick?_untag]
    cases Candidate.pick? s.classes (s.constructorCandidates decl arguments) with
    | none => exact congrArg Except.error (hfault _)
    | some c => rfl

end Scope

/-! ## Exact parameters -/

namespace FunctionalInterface

variable (classes : ClassTable) (span : Span)

/-- The type of a slot, or its fault, is the same but for kinds if the inferred type is. -/
theorem slotType_untag (declared inferred : JType) :
    JType.untag <$> (slotType classes declared inferred.untag span).mapError Fault.withoutKinds =
      JType.untag <$> (slotType classes declared inferred span).mapError Fault.withoutKinds := by
  unfold slotType
  rw [JType.boxed_untag, classes.isSubtype_untag_left]
  split
  · simp only [Except.mapError, Fault.withoutKinds, JType.untag_untag]
  · cases declared.isPrimitive with
    | false => cases inferred <;> simp [JType.untag, Except.mapError]
    | true => cases inferred <;> rfl

/-- A slot, or its fault, is the same but for kinds if the inferred type is. -/
theorem slot_untag (declared : Param) (inferred : Option JType) :
    Param.untag <$> (slot classes span declared (inferred.map JType.untag)).mapError Fault.withoutKinds =
      Param.untag <$> (slot classes span declared inferred).mapError Fault.withoutKinds := by
  have hslot : ∀ type, Param.untag <$> (slot classes span declared (some type)).mapError Fault.withoutKinds =
      declared.untag.retyped <$> JType.untag <$> (slotType classes declared.type type span).mapError Fault.withoutKinds := by
    intro type
    rw [slot]
    cases slotType classes declared.type type span <;> rfl
  cases inferred with
  | none => rfl
  | some inferred => rw [Option.map_some, hslot, hslot, slotType_untag]

/-- Slots in a row are the same but for kinds if the inferred types are. -/
theorem slots_untag (ps : List Param) (types : List (Option JType)) :
    List.map Param.untag <$> (slots classes span ps (types.map (Option.map JType.untag))).mapError Fault.withoutKinds =
      List.map Param.untag <$> (slots classes span ps types).mapError Fault.withoutKinds := by
  induction ps generalizing types with
  | nil => cases types <;> rfl
  | cons p ps ih =>
    cases types with
    | nil => rfl
    | cons type types =>
      have hslots : ∀ type rest, List.map Param.untag <$> (slots classes span (p :: ps) (type :: rest)).mapError Fault.withoutKinds =
          (Param.untag <$> (slot classes span p type).mapError Fault.withoutKinds) >>= fun first =>
            (first :: ·) <$> List.map Param.untag <$> (slots classes span ps rest).mapError Fault.withoutKinds := by
        intro type rest
        rw [slots]
        cases slot classes span p type with
        | error e => rfl
        | ok first => cases slots classes span ps rest <;> rfl
      rw [List.map_cons, hslots, hslots, slot_untag, ih]

/-- Exact parameters are the same but for kinds if the inferred types are. -/
theorem exactParams_untag (f : FunctionalInterface) (inferred : List (Option JType)) :
    List.map Param.untag <$> (exactParams classes f (inferred.map (Option.map JType.untag)) span).mapError Fault.withoutKinds =
      List.map Param.untag <$> (exactParams classes f inferred span).mapError Fault.withoutKinds := by
  unfold exactParams
  rw [List.length_map]
  split
  · rfl
  · exact slots_untag classes span f.method.params inferred

/-- Inferred types that differ in kinds only make exact parameters that do, or fail alike. -/
theorem exactParams_alike (f : FunctionalInterface) {types types' : List (Option JType)}
    (h : types.map (Option.map JType.untag) = types'.map (Option.map JType.untag)) :
    List.map Param.untag <$> (exactParams classes f types span).mapError Fault.withoutKinds =
      List.map Param.untag <$> (exactParams classes f types' span).mapError Fault.withoutKinds := by
  rw [← exactParams_untag, h, exactParams_untag]

end FunctionalInterface

end Linkage
