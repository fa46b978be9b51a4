import Linkage.Descriptor

/-!
# Reading descriptors

A type is read back from its descriptor, and the parameter types and the result from the descriptor of a method, all as classes: a
descriptor does not say which names are interfaces. What is read is right whenever no name holds the semicolon that ends it.
-/

namespace Linkage

/-- The primitive type of a letter. -/
def Primitive.ofLetter? (letter : Char) : Option Primitive :=
  all.find? fun p => p.letter = letter

namespace JType

/-- No name in the type holds a semicolon. -/
def Plain : JType → Prop
  | named _ n => ';' ∉ n.toList
  | array c => c.Plain
  | prim _ => True
  | void => True

instance decidablePlain : (t : JType) → Decidable t.Plain
  | prim _ => .isTrue trivial
  | named _ n => inferInstanceAs (Decidable (';' ∉ n.toList))
  | array c => decidablePlain c
  | void => .isTrue trivial

/-- Reads a type from the start of a descriptor; gives what follows it. -/
def read? : List Char → Option (JType × List Char)
  | '[' :: rest => (read? rest).map fun (c, after) => (array c, after)
  | 'L' :: rest =>
    match rest.dropWhile (· ≠ ';') with
    | _ :: after => some (ofClass (String.ofList (rest.takeWhile (· ≠ ';'))), after)
    | [] => none
  | 'V' :: rest => some (void, rest)
  | letter :: rest => (Primitive.ofLetter? letter).map fun p => (prim p, rest)
  | [] => none

/-- A type is read back from its descriptor, whatever follows. -/
theorem read?_descriptor {t : JType} (ht : t.Plain) (rest : List Char) :
    read? (t.descriptor.toList ++ rest) = some (t.untag, rest) := by
  induction t with
  | prim p => cases p <;> simp [descriptor, Primitive.letter, read?, Primitive.ofLetter?, Primitive.all, untag]
  | named k n =>
    have hname : ∀ c ∈ n.toList, (!decide (c = ';')) = true := by
      intro c hc
      simp only [Bool.not_eq_true', decide_eq_false_iff_not]
      rintro rfl
      exact ht hc
    simp [descriptor, read?, untag, ofClass, List.takeWhile_append_of_pos hname, List.dropWhile_append_of_pos hname]
  | array c ih => simp [descriptor, read?, untag, ih ht]
  | void => simp [descriptor, read?, untag]

/-- Reads types up to the closing parenthesis, at most `limit` of them; gives what follows it. -/
def readParams? : Nat → List Char → Option (List JType × List Char)
  | _, ')' :: rest => some ([], rest)
  | 0, _ => none
  | limit + 1, text => do
    let (first, rest) ← read? text
    let (types, after) ← readParams? limit rest
    return (first :: types, after)

/-- A descriptor begins with a character that does not end a parameter list. -/
theorem exists_cons_descriptor (t : JType) : ∃ c cs, t.descriptor.toList = c :: cs ∧ c ≠ ')' := by
  cases t with
  | prim p => cases p <;> exact ⟨_, _, rfl, by decide⟩
  | named k n => exact ⟨'L', n.toList ++ [';'], by simp [descriptor], by decide⟩
  | array c => exact ⟨'[', c.descriptor.toList, by simp [descriptor], by decide⟩
  | void => exact ⟨'V', [], rfl, by decide⟩

/-- Descriptors are not empty, so there are at least as many characters as types. -/
theorem length_le_descriptors (types : List JType) : types.length ≤ (types.flatMap fun t => t.descriptor.toList).length := by
  induction types with
  | nil => exact Nat.le_refl _
  | cons t ts ih =>
    obtain ⟨c, cs, hc, -⟩ := exists_cons_descriptor t
    simp only [List.flatMap_cons, List.length_append, hc, List.length_cons]
    omega

/-- Parameter types are read back from their descriptors, when they are not more than the limit. -/
theorem readParams?_descriptors {types : List JType} (htypes : ∀ t ∈ types, t.Plain) {limit : Nat} (hlimit : types.length ≤ limit)
    (rest : List Char) :
    readParams? limit (types.flatMap (fun t => t.descriptor.toList) ++ ')' :: rest) = some (types.map untag, rest) := by
  induction types generalizing limit with
  | nil => cases limit <;> rfl
  | cons t ts ih =>
    obtain ⟨limit, rfl⟩ : ∃ n, limit = n + 1 := ⟨limit - 1, by simp only [List.length_cons] at hlimit; omega⟩
    have hfirst := read?_descriptor (htypes t List.mem_cons_self) (ts.flatMap (fun t => t.descriptor.toList) ++ ')' :: rest)
    have hrest := ih (fun u hu => htypes u (List.mem_cons_of_mem t hu)) (Nat.le_of_succ_le_succ hlimit)
    obtain ⟨c, cs, hc, hparen⟩ := exists_cons_descriptor t
    rw [List.flatMap_cons, List.append_assoc]
    rw [hc, List.cons_append] at hfirst ⊢
    rw [readParams?, hfirst]
    · simp [hrest]
    · rintro after heq
      exact hparen (List.cons.inj heq).1

/-- The parameter types and the result that the descriptor of a method names. -/
def readMethod? (descriptor : String) : Option (List JType × JType) :=
  match descriptor.toList with
  | '(' :: rest => do
    let (params, rest) ← readParams? rest.length rest
    let (result, rest) ← read? rest
    if rest.isEmpty then some (params, result) else none
  | _ => none

/-- Signatures are read back from their descriptors. -/
theorem readMethod?_methodDescriptor {params : List JType} {result : JType} (hparams : ∀ t ∈ params, t.Plain)
    (hresult : result.Plain) : readMethod? (methodDescriptor params result) = some (params.map untag, result.untag) := by
  have htext : (methodDescriptor params result).toList =
      '(' :: (params.flatMap (fun t => t.descriptor.toList) ++ ')' :: result.descriptor.toList) := by
    simp [methodDescriptor, String.toList_join, List.flatMap_map]
  have hlength : params.length ≤ (params.flatMap (fun t => t.descriptor.toList) ++ ')' :: result.descriptor.toList).length := by
    rw [List.length_append]
    exact Nat.le_add_right_of_le (length_le_descriptors params)
  have hend := read?_descriptor hresult []
  rw [List.append_nil] at hend
  rw [readMethod?, htext]
  simp only [readParams?_descriptors hparams hlength, hend, Option.bind_eq_bind, Option.bind_some]
  rfl

/-! ## Names of types in the pool -/

/-- A name that can stand in a descriptor by itself: it has neither the mark that ends a name nor that of an array. -/
def IsName (name : String) : Prop :=
  ';' ∉ name.toList ∧ '[' ∉ name.toList

instance (name : String) : Decidable (IsName name) :=
  inferInstanceAs (Decidable (_ ∧ _))

/-- The type has a descriptor that the machine can read: its names can stand in one, and its components are not `void`. -/
def Describable : JType → Prop
  | named _ n => IsName n
  | array c => c ≠ .void ∧ c.Describable
  | prim _ => True
  | void => True

instance decidableDescribable : (t : JType) → Decidable t.Describable
  | named _ n => inferInstanceAs (Decidable (IsName n))
  | array c => haveI := decidableDescribable c; inferInstanceAs (Decidable (c ≠ .void ∧ c.Describable))
  | prim _ => .isTrue trivial
  | void => .isTrue trivial

theorem Describable.plain {t : JType} (h : t.Describable) : t.Plain := by
  induction t with
  | prim p => trivial
  | named k n => exact h.1
  | array c ih => exact ih h.2
  | void => trivial

/-- The type that stands in the pool under a name: an array under its descriptor, a class under the name it has. -/
def ofConstantName? (name : String) : Option JType :=
  if name.toList.head? = some '[' then
    match read? name.toList with
    | some (type, []) => some type
    | _ => none
  else some (ofClass name)

/-- A class is read back from its name. -/
theorem ofConstantName?_of_isName {name : String} (h : IsName name) : ofConstantName? name = some (ofClass name) := by
  have hhead : name.toList.head? ≠ some '[' := by
    intro hhead
    exact h.2 (List.mem_of_mem_head? hhead)
  rw [ofConstantName?, if_neg hhead]

/-- A class, an interface or an array is read back from the name under which it stands in the pool. -/
theorem ofConstantName?_constantName {t : JType} (ht : t.Describable) (href : t.isReference = true) :
    ofConstantName? t.constantName = some t.untag := by
  cases t with
  | prim p => cases href
  | void => cases href
  | named k n => exact ofConstantName?_of_isName ht
  | array c =>
    have hread := read?_descriptor ht.plain []
    rw [List.append_nil] at hread
    have hhead : (array c).descriptor.toList.head? = some '[' := by simp [descriptor]
    change ofConstantName? (array c).descriptor = _
    rw [ofConstantName?, if_pos hhead, hread]

end JType

end Linkage
