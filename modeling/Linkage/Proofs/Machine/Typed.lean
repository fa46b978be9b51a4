import Linkage.Proofs.ClassTable.Conversion
import Linkage.Proofs.Descriptor
import Linkage.Proofs.Machine.Instruction
import Linkage.Proofs.Pool.View

/-!
# The machine over types

Straight-line code run on types in place of values. A type on the stack comes with the parameters that the value was made from, so that
it can be said which parameter ends up where. The machine stops at everything that is not well typed: a local of another sort, an
operand that does not fit, a stack that is too short, an object that is used before its constructor was called.
-/

namespace Linkage

/-- Whether a value of the first type may stand where the second is asked for, as it is: it is of a subtype, or of a narrower type that
the machine computes with alike. -/
def ClassTable.fits (classes : ClassTable) (source target : JType) : Bool :=
  classes.isSubtype source target ||
    match source, target with
    | .prim p, .prim q => p.computesAsInt && q.computesAsInt && p.widensTo q
    | _, _ => false

/-- A value takes two slots at most. -/
theorem JType.width_le (type : JType) : type.width ≤ 2 := by
  cases type with
  | prim p => cases p <;> decide
  | named k n => exact Nat.le_succ 1
  | array c => exact Nat.le_succ 1
  | void => exact Nat.zero_le 2

namespace ClassTable

variable {classes : ClassTable} {source target : JType}

/-- A value fits a supertype of its type. -/
theorem fits_of_isSubtype (h : classes.isSubtype source target = true) : classes.fits source target = true := by
  simp [fits, h]

/-- A value fits its own type. -/
theorem fits_of_equiv (h : source ≈ target) : classes.fits source target = true :=
  fits_of_isSubtype (classes.isSubtype_of_equiv h)

/-- The kinds of the target do not matter to what fits. -/
theorem fits_untag (classes : ClassTable) (source target : JType) : classes.fits source target.untag = classes.fits source target := by
  unfold fits
  rw [isSubtype_untag]
  cases source <;> cases target <;> rfl

end ClassTable

/-- The type of the values of a sort that conversions produce. -/
def SlotKind.type : SlotKind → JType
  | int => .int
  | long => .prim .long
  | float => .prim .float
  | double => .prim .double
  | reference => .object

/-- A value on the stack: one of a type, with the numbers of the parameters it was made from, or an object whose constructor was not
called yet, with its number among the objects created. -/
inductive Operand where
  | value (type : JType) (sources : List Nat)
  | fresh (number : Nat) (className : String)
  deriving DecidableEq

namespace Operand

/-- The number of stack slots that a value takes. -/
def width : Operand → Nat
  | value type _ => type.width
  | fresh _ _ => 1

/-- The slots that values take together. -/
def slots (operands : List Operand) : Nat :=
  operands.foldr (fun o total => o.width + total) 0

/-- The parameters that a value was made from. -/
def sources : Operand → List Nat
  | value _ sources => sources
  | fresh _ _ => []

/-- Whether a value may stand where a type is asked for. -/
def fits (classes : ClassTable) (o : Operand) (target : JType) : Bool :=
  match o with
  | value type _ => classes.fits type target
  | fresh _ _ => false

/-- The value behind the call of the constructor of the object with this number. -/
def initialise (number : Nat) : Operand → Operand
  | fresh n className => if n = number then value (.ofClass className) [] else fresh n className
  | o => o

/-- The slots of a stack, from the top. -/
theorem slots_cons (o : Operand) (os : List Operand) : slots (o :: os) = o.width + slots os := by
  simp [slots]

/-- No value takes more than two slots. -/
theorem slots_value_le (type : JType) (sources : List Nat) (os : List Operand) : slots (value type sources :: os) ≤ slots os + 2 := by
  have hle := type.width_le
  rw [slots_cons]
  change type.width + slots os ≤ slots os + 2
  omega

/-- The operands are values of the parameters from a number on, one of each in order, and fit the types one by one. -/
def Passed (classes : ClassTable) : Nat → List Operand → List JType → Prop
  | _, [], [] => True
  | number, .value type sources :: os, target :: targets =>
    sources = [number] ∧ classes.fits type target = true ∧ Passed classes (number + 1) os targets
  | _, _, _ => False

namespace Passed

variable {classes : ClassTable} {number : Nat} {os : List Operand} {targets : List JType}

/-- One value is passed for each parameter. -/
theorem length_eq (h : Passed classes number os targets) : os.length = targets.length := by
  induction os generalizing number targets with
  | nil =>
    cases targets with
    | nil => rfl
    | cons target targets => cases h
  | cons o os ih =>
    cases o with
    | fresh n className => cases h
    | value type sources =>
      cases targets with
      | nil => cases h
      | cons target targets => simp [ih h.2.2]

/-- What is passed fits, also when the types are read back from a descriptor. -/
theorem all_fits (h : Passed classes number os targets) :
    (os.zip (targets.map JType.untag)).all (fun (o, type) => o.fits classes type) = true := by
  induction os generalizing number targets with
  | nil => rfl
  | cons o os ih =>
    cases o with
    | fresh n className => cases h
    | value type sources =>
      cases targets with
      | nil => cases h
      | cons target targets =>
        obtain ⟨-, hfits, hrest⟩ := h
        have hhead : classes.fits type target.untag = true := by rw [ClassTable.fits_untag, hfits]
        simp only [List.map_cons, List.zip_cons_cons, List.all_cons, Operand.fits, hhead, Bool.true_and]
        exact ih hrest

/-- Sizes that are passed fit one by one. -/
theorem all_fits_replicate {target : JType} {count : Nat} (h : Passed classes number os (List.replicate count target)) :
    os.all (fun o => o.fits classes target) = true := by
  induction os generalizing number count with
  | nil => rfl
  | cons o os ih =>
    cases count with
    | zero => cases o <;> cases h
    | succ count =>
      cases o with
      | fresh n className => cases h
      | value type sources =>
        obtain ⟨-, hfits, hrest⟩ := h
        simp only [List.all_cons, Operand.fits, hfits, Bool.true_and]
        exact ih hrest

end Passed

end Operand

/-- The local slots at the start of a body: each parameter with its number in the first of its slots, none in the second. -/
def localsFrom (number : Nat) : List JType → List (Option (Nat × JType))
  | [] => []
  | type :: types =>
    match type.width with
    | 0 => localsFrom (number + 1) types
    | more + 1 => some (number, type) :: (List.replicate more none ++ localsFrom (number + 1) types)

/-- A run of a body so far: the stack, top first, and what the instructions did. -/
structure Frame where
  stack : List Operand := []
  /-- The numbers of the parameters that were loaded. -/
  loads : List Nat := []
  /-- The classes of which objects were created. -/
  created : List String := []
  /-- The calls of constructors: class, descriptor, arguments. -/
  constructed : List (String × String × List Operand) := []
  /-- The arrays that were made, each with its sizes. -/
  allocated : List (JType × List Operand) := []
  /-- The largest number of slots that the stack took. -/
  peak : Nat := 0
  deriving DecidableEq

namespace Frame

def push (f : Frame) (o : Operand) : Frame :=
  { f with stack := o :: f.stack, peak := max f.peak (Operand.slots (o :: f.stack)) }

/-- Pushes the result of a call, if it has one. -/
def pushResult (f : Frame) (type : JType) (sources : List Nat) : Frame :=
  if type = .void then f else f.push (.value type sources)

/-- Pushes a new object of a class. -/
def create (f : Frame) (className : String) : Frame :=
  { f with created := f.created ++ [className] }.push (.fresh f.created.length className)

/-- Calls a method with the arguments on top of the stack, the last topmost, on the object below them unless it is static. A call of the
special kind is one of a constructor, on an object for which none was called yet. -/
def call (classes : ClassTable) (f : Frame) (kind : CallKind) (owner name descriptor : String) (params : List JType)
    (result : JType) : Option Frame :=
  let args := (f.stack.take params.length).reverse
  if args.length < params.length || !(args.zip params).all (fun (o, type) => o.fits classes type) then none
  else
    match kind, f.stack.drop params.length with
    | .onClass, rest => some ({ f with stack := rest }.pushResult result (args.flatMap Operand.sources))
    | .special, .fresh number className :: rest =>
      if owner = className ∧ name = WellKnown.constructor ∧ result = .void then
        some { f with
          stack := rest.map (Operand.initialise number)
          constructed := f.constructed ++ [(className, descriptor, args)] }
      else none
    | .special, _ => none
    | _, object :: rest =>
      match JType.ofConstantName? owner with
      | some type =>
        if object.fits classes type then
          some ({ f with stack := rest }.pushResult result ((object :: args).flatMap Operand.sources))
        else none
      | none => none
    | _, [] => none

/-- Makes an array with the sizes on top of the stack. -/
def allocate (classes : ClassTable) (f : Frame) (type : JType) (sizes : Nat) : Option Frame :=
  let operands := (f.stack.take sizes).reverse
  if operands.length < sizes || !operands.all (fun o => o.fits classes .int) then none
  else
    some ({ f with stack := f.stack.drop sizes, allocated := f.allocated ++ [(type, operands)] }.push
      (.value type (operands.flatMap Operand.sources)))

/-- Executes an instruction with the constants of a pool. There is no step for what factories do not need. -/
def exec? (classes : ClassTable) (locals : List (Option (Nat × JType))) (p : Pool) (f : Frame) : Instruction → Option Frame
  | .load kind slot =>
    match locals[slot]? with
    | some (some (number, type)) =>
      if SlotKind.ofType? type = some kind then some ({ f with loads := f.loads ++ [number] }.push (.value type [number])) else none
    | _ => none
  | .dup =>
    match f.stack with
    | top :: _ => if top.width = 1 then some (f.push top) else none
    | [] => none
  | .convert source target =>
    match f.stack with
    | .value type sources :: rest =>
      if SlotKind.ofType? type = some source then some ({ f with stack := rest }.push (.value target.type sources)) else none
    | _ => none
  | .call kind index => do
    let (member, owner, name, descriptor) ← p.kindAndMember? index
    let (params, result) ← JType.readMethod? descriptor
    if !kind.accepts member then none else f.call classes kind owner name descriptor params result
  | .new index => (p.className? index).map f.create
  | .newarray element => f.allocate classes (.array (.prim element)) 1
  | .anewarray index => do
    let component ← JType.ofConstantName? (← p.className? index)
    f.allocate classes (.array component) 1
  | .multianewarray index sizes => do
    let type ← JType.ofConstantName? (← p.className? index)
    if sizes = 0 || type.dimensions < sizes then none else f.allocate classes type sizes
  | _ => none

/-- Executes instructions in order. -/
def execAll? (classes : ClassTable) (locals : List (Option (Nat × JType))) (p : Pool) : List Instruction → Frame → Option Frame
  | [], f => some f
  | i :: is, f => (f.exec? classes locals p i).bind (execAll? classes locals p is)

/-- Executes a body, whose last instruction returns a reference: the type that is returned, and the frame behind. -/
def execBody? (classes : ClassTable) (locals : List (Option (Nat × JType))) (p : Pool) (body : List Instruction) (f : Frame) :
    Option (JType × Frame) :=
  match body.getLast? with
  | some (.leave (some .reference)) =>
    match execAll? classes locals p body.dropLast f with
    | some g =>
      match g.stack with
      | .value type _ :: rest => if type.isReference then some (type, { g with stack := rest }) else none
      | _ => none
    | none => none
  | _ => none

section Run

variable {classes : ClassTable} {locals : List (Option (Nat × JType))} {p : Pool} {f g : Frame}

/-- Instructions in a row are run one after the other. -/
theorem execAll?_append (is js : List Instruction) (f : Frame) :
    execAll? classes locals p (is ++ js) f = (execAll? classes locals p is f).bind (execAll? classes locals p js) := by
  induction is generalizing f with
  | nil => rfl
  | cons i is ih =>
    rw [List.cons_append, execAll?, execAll?, Option.bind_assoc]
    congr 1
    funext g
    exact ih g

/-- A body that returns what the code before its last instruction leaves. -/
theorem execBody?_concat {is : List Instruction} {type : JType} {sources : List Nat} {rest : List Operand}
    (hrun : execAll? classes locals p is f = some g) (hstack : g.stack = .value type sources :: rest)
    (htype : type.isReference = true) :
    execBody? classes locals p (is ++ [.leave (some .reference)]) f = some (type, { g with stack := rest }) := by
  simp [execBody?, hrun, hstack, htype]

/-- The constructor of an object that was created is called with what is passed, and the object is initialised wherever it stands. -/
theorem call_constructor {number first : Nat} {className descriptor : String} {args rest : List Operand} {params : List JType}
    (hstack : f.stack = args.reverse ++ .fresh number className :: rest) (hargs : Operand.Passed classes first args params) :
    f.call classes .special className WellKnown.constructor descriptor (params.map JType.untag) .void =
      some { f with
        stack := rest.map (Operand.initialise number)
        constructed := f.constructed ++ [(className, descriptor, args)] } := by
  have hlength : args.reverse.length = (params.map JType.untag).length := by
    rw [List.length_reverse, List.length_map, hargs.length_eq]
  have htake : (f.stack.take (params.map JType.untag).length).reverse = args := by
    rw [hstack, List.take_left' hlength, List.reverse_reverse]
  have hdrop : f.stack.drop (params.map JType.untag).length = .fresh number className :: rest := by
    rw [hstack, List.drop_left' hlength]
  rw [List.length_reverse] at hlength
  simp only [call, htake, hdrop, hlength, hargs.all_fits]
  simp

/-- A static call with one argument that fits. -/
theorem call_onClass {owner name descriptor : String} {type param result : JType} {sources : List Nat} {rest : List Operand}
    (hstack : f.stack = .value type sources :: rest) (hfits : classes.fits type param = true) (hresult : result ≠ .void) :
    f.call classes .onClass owner name descriptor [param] result = some ({ f with stack := rest }.push (.value result sources)) := by
  simp [call, hstack, Operand.fits, hfits, pushResult, hresult, Operand.sources]

/-- A call without arguments on an object that fits. -/
theorem call_onObject {owner name descriptor : String} {type ownerType result : JType} {sources : List Nat} {rest : List Operand}
    (hstack : f.stack = .value type sources :: rest) (howner : JType.ofConstantName? owner = some ownerType)
    (hfits : classes.fits type ownerType = true) (hresult : result ≠ .void) :
    f.call classes .onObject owner name descriptor [] result = some ({ f with stack := rest }.push (.value result sources)) := by
  simp [call, hstack, howner, Operand.fits, hfits, pushResult, hresult, Operand.sources]

/-- A call runs as its descriptor says. -/
theorem exec?_call {kind : CallKind} {index : UInt16} {member : MemberKind} {owner name : String} {params : List JType} {result : JType}
    (hmember : p.kindAndMember? index = some (member, owner, name, methodDescriptor params result))
    (hparams : ∀ t ∈ params, t.Plain) (hresult : result.Plain) (haccepts : kind.accepts member = true) :
    f.exec? classes locals p (.call kind index) =
      f.call classes kind owner name (methodDescriptor params result) (params.map JType.untag) result.untag := by
  simp [exec?, hmember, JType.readMethod?_methodDescriptor hparams hresult, haccepts]

/-- An array is made with the sizes that are passed. -/
theorem allocate_eq_some {first : Nat} {type : JType} {sizes rest : List Operand}
    (hstack : f.stack = sizes.reverse ++ rest) (hsizes : Operand.Passed classes first sizes (List.replicate sizes.length .int)) :
    f.allocate classes type sizes.length =
      some ({ f with stack := rest, allocated := f.allocated ++ [(type, sizes)] }.push
        (.value type (sizes.flatMap Operand.sources))) := by
  have hlength : sizes.reverse.length = sizes.length := List.length_reverse
  simp only [allocate, hstack, List.take_left' hlength, List.drop_left' hlength, List.reverse_reverse, hsizes.all_fits_replicate]
  simp

end Run

end Frame

end Linkage
