import Linkage.FunctionalInterface
import Linkage.ClassTable.Platform
import Linkage.Proofs.ClassTable.Hierarchy
import Linkage.Proofs.ClassTable.Search

/-!
# What a look-up depends on

A look-up starts from the names in the question and goes on to the names that declarations mention: a superclass, an interface, the target
of an alias. So it never leaves a set of names that holds all that its declarations mention, and tables that register the same in such a
set answer every question about its names alike (`SameOn`, `SameAnswers`).

A declaration that no other one mentions is outside such a set. Registering it changes no answer to a question without its name
(`sameAnswers_register`), though an unknown name becomes a known one. Boxing is the one way to a name that is neither in the question nor
mentioned, so the wrapper classes are excepted.
-/

namespace Linkage

/-- The names that a declaration mentions: its superclass, its interfaces, and what it is an alias of. -/
def ClassDecl.mentions (c : ClassDecl) : List String :=
  c.superclass.toList ++ c.interfaces ++ c.aliasOf.toList

namespace ClassDecl

variable {c : ClassDecl} {name : String}

/-- A declaration mentions its superclass. -/
theorem mem_mentions_of_superclass (h : c.superclass = some name) : name ∈ c.mentions := by
  simp [mentions, h]

/-- A declaration mentions its interfaces. -/
theorem mem_mentions_of_mem_interfaces (h : name ∈ c.interfaces) : name ∈ c.mentions := by
  simp [mentions, h]

/-- An alias mentions what it stands for. -/
theorem mem_mentions_of_aliasOf (h : c.aliasOf = some name) : name ∈ c.mentions := by
  simp [mentions, h]

end ClassDecl

/-- The name at the core of a type, if it has one, is among the names. -/
def JType.Within (names : Set String) (type : JType) : Prop :=
  ∀ n, type.coreName? = some n → n ∈ names

namespace ClassTable

/-- The tables register the same under the names, and what is registered there mentions none but them. -/
structure SameOn (t u : ClassTable) (names : Set String) : Prop where
  get?_eq : ∀ n ∈ names, u.get? n = t.get? n
  closed : ∀ n ∈ names, ∀ decl, t.get? n = some decl → ∀ m ∈ decl.mentions, m ∈ names

variable {t u : ClassTable} {names : Set String} {name : String}

namespace SameOn

/-! ## Names -/

/-- Aliases are followed alike, and not out of the names. -/
theorem followFrom (h : t.SameOn u names) (steps : Nat) {start : ClassDecl} (hname : start.name ∈ names)
    (hstart : t.get? start.name = some start) :
    u.followFrom steps start = t.followFrom steps start ∧
      ∀ decl, t.followFrom steps start = .declared decl → decl.name ∈ names := by
  induction steps generalizing start with
  | zero => exact ⟨rfl, nofun⟩
  | succ steps ih =>
    unfold ClassTable.followFrom
    cases halias : start.aliasOf with
    | none =>
      refine ⟨rfl, fun decl hdecl => ?_⟩
      rw [← Landing.declared.inj hdecl]
      exact hname
    | some target =>
      have htarget : target ∈ names := h.closed _ hname start hstart target (ClassDecl.mem_mentions_of_aliasOf halias)
      simp only [h.get?_eq target htarget]
      cases hnext : t.get? target with
      | none => exact ⟨rfl, nofun⟩
      | some next =>
        rw [← name_of_get? hnext] at htarget hnext
        exact ih htarget hnext

/-- A name in the set stands for the same declaration in both tables. -/
theorem underlying? (h : t.SameOn u names) (hname : name ∈ names) : u.underlying? name = t.underlying? name := by
  unfold ClassTable.underlying? follow
  rw [h.get?_eq name hname]
  cases hstart : t.get? name with
  | none => rfl
  | some start =>
    rw [← name_of_get? hstart] at hname hstart
    simp only [(h.followFrom aliasLimit hname hstart).1]

/-- What one of the names stands for is registered under one of them. -/
theorem name_mem (h : t.SameOn u names) (hname : name ∈ names) {decl : ClassDecl} (hdecl : t.underlying? name = some decl) :
    decl.name ∈ names := by
  have hfollow := underlying?_eq_some_iff.mp hdecl
  unfold follow at hfollow
  cases hstart : t.get? name with
  | none =>
    rw [hstart] at hfollow
    cases hfollow
  | some start =>
    rw [hstart] at hfollow
    rw [← name_of_get? hstart] at hname hstart
    exact (h.followFrom aliasLimit hname hstart).2 decl hfollow

/-- What one of the names stands for mentions none but them. -/
theorem mentions_mem (h : t.SameOn u names) (hname : name ∈ names) {decl : ClassDecl} (hdecl : t.underlying? name = some decl) :
    ∀ m ∈ decl.mentions, m ∈ names :=
  h.closed decl.name (h.name_mem hname hdecl) decl (aliasOf_of_underlying? hdecl).2

/-- A name in the set is resolved alike. -/
theorem canonicalName (h : t.SameOn u names) (hname : name ∈ names) : u.canonicalName name = t.canonicalName name := by
  rw [ClassTable.canonicalName, h.underlying? hname, ClassTable.canonicalName]

/-- What a name in the set is resolved to is in the set. -/
theorem canonicalName_mem (h : t.SameOn u names) (hname : name ∈ names) : t.canonicalName name ∈ names := by
  unfold ClassTable.canonicalName
  cases hdecl : t.underlying? name with
  | none => exact hname
  | some decl => exact h.name_mem hname hdecl

/-- A type with its name in the set is resolved alike. -/
theorem canonicalType (h : t.SameOn u names) {type : JType} (htype : type.Within names) : u.canonicalType type = t.canonicalType type := by
  induction type with
  | prim p => rfl
  | void => rfl
  | array c ih => exact congrArg JType.array (ih htype)
  | named k n => rw [ClassTable.canonicalType, h.underlying? (htype n rfl), ClassTable.canonicalType]

/-! ## The hierarchy -/

/-- A name in the set has the same superclass. -/
theorem superclass? (h : t.SameOn u names) (hname : name ∈ names) : u.superclass? name = t.superclass? name := by
  rw [ClassTable.superclass?, h.underlying? hname, ClassTable.superclass?]

/-- A name in the set has the same parents, in the same order. -/
theorem parents (h : t.SameOn u names) (hname : name ∈ names) : u.parents name = t.parents name := by
  unfold ClassTable.parents
  rw [h.underlying? hname]
  cases hdecl : t.underlying? name with
  | none => rfl
  | some decl =>
    have hinterfaces : decl.interfaces.map u.canonicalName = decl.interfaces.map t.canonicalName := by
      refine List.map_congr_left fun m hm => h.canonicalName ?_
      exact h.mentions_mem hname hdecl m (ClassDecl.mem_mentions_of_mem_interfaces hm)
    simp only [hinterfaces]

/-- A step up the hierarchy does not leave the names. -/
theorem mem_of_step (h : t.SameOn u names) {a b : String} (ha : a ∈ names) (hab : t.Step a b) : b ∈ names := by
  obtain ⟨decl, hdecl, hb⟩ := step_iff.mp hab
  have hmentions := h.mentions_mem ha hdecl
  rcases List.mem_append.mp hb with hb | hb
  · exact hmentions b (ClassDecl.mem_mentions_of_superclass (Option.mem_toList.mp hb))
  · obtain ⟨m, hm, rfl⟩ := List.mem_map.mp hb
    exact h.canonicalName_mem (hmentions m (ClassDecl.mem_mentions_of_mem_interfaces hm))

/-- However many steps lead up, they do not leave the names. -/
theorem mem_of_reaches (h : t.SameOn u names) {a b : String} (ha : a ∈ names) (hab : t.Reaches a b) : b ∈ names := by
  induction hab with
  | refl => exact ha
  | tail _ hstep ih => exact h.mem_of_step ih hstep

/-- The climb from a name in the set goes the same way, however far. -/
theorem climb (h : t.SameOn u names) (steps : Nat) (seen : Std.TreeSet String) (hname : name ∈ names) :
    u.climb steps seen name = t.climb steps seen name := by
  induction steps generalizing seen name with
  | zero => rfl
  | succ steps ih =>
    rw [ClassTable.climb, ClassTable.climb, h.superclass? hname]
    cases hparent : t.superclass? name with
    | none => rfl
    | some parent => simp only [ih (seen.insert name) (h.mem_of_step hname (step_of_superclass? hparent))]

/-- The walk from names in the set visits the same names, however far. -/
theorem visit (h : t.SameOn u names) (steps : Nat) (seen : Std.TreeSet String) {queue : List String} (hqueue : ∀ n ∈ queue, n ∈ names) :
    u.visit steps seen queue = t.visit steps seen queue := by
  induction steps generalizing seen queue with
  | zero => rfl
  | succ steps ih =>
    rw [ClassTable.visit, ClassTable.visit]
    cases hrest : queue.dropWhile (· ∈ seen) with
    | nil => rfl
    | cons name rest =>
      have hleft : ∀ n ∈ name :: rest, n ∈ names := fun n hn => hqueue n ((List.dropWhile_sublist _).subset (hrest ▸ hn))
      have hname : name ∈ names := hleft name List.mem_cons_self
      have hnext : ∀ n ∈ rest ++ t.parents name, n ∈ names := by
        intro n hn
        rcases List.mem_append.mp hn with hn | hn
        · exact hleft n (List.mem_cons_of_mem name hn)
        · exact h.mem_of_step hname hn
      simp only [h.parents hname, ih (seen.insert name) hnext]

/-- A name in the set has the same lineage. -/
theorem lineage (h : t.SameOn u names) (hname : name ∈ names) : u.lineage name = t.lineage name := by
  rw [ClassTable.lineage, h.canonicalName hname, h.climb _ _ (h.canonicalName_mem hname), ClassTable.lineage]

/-- A name in the set has the same supertypes, in the same order. -/
theorem supertypes (h : t.SameOn u names) (hname : name ∈ names) : u.supertypes name = t.supertypes name := by
  have hqueue : ∀ n ∈ [t.canonicalName name], n ∈ names := fun n hn => List.mem_singleton.mp hn ▸ h.canonicalName_mem hname
  rw [ClassTable.supertypes, h.canonicalName hname, h.visit _ _ hqueue, ClassTable.supertypes]

/-- A lineage does not leave the set. -/
theorem mem_of_mem_lineage (h : t.SameOn u names) (hname : name ∈ names) {n : String} (hn : n ∈ t.lineage name) : n ∈ names :=
  h.mem_of_reaches (h.canonicalName_mem hname) (reaches_of_mem_climb n hn)

/-- Supertypes do not leave the set. -/
theorem mem_of_mem_supertypes (h : t.SameOn u names) (hname : name ∈ names) {n : String} (hn : n ∈ t.supertypes name) : n ∈ names :=
  h.mem_of_reaches (h.canonicalName_mem hname) (reaches_of_mem_supertypes hn)

/-! ## Conversions -/

/-- Types with their names in the set are subtypes alike. -/
theorem isSubtype (h : t.SameOn u names) {source target : JType} (hsource : source.Within names) (htarget : target.Within names) :
    u.isSubtype source target = t.isSubtype source target := by
  induction source generalizing target with
  | array c ih =>
    cases target with
    | array d => rw [isSubtype_component, isSubtype_component, @ih d hsource htarget]
    | _ => rfl
  | named k m =>
    cases target with
    | named l n => rw [isSubtype_named, isSubtype_named, h.canonicalName (htarget n rfl), h.supertypes (hsource m rfl)]
    | _ => rfl
  | prim p => rfl
  | void => rfl

/-- A value that is passed may be boxed, so the wrapper class of its type has to be one of the names. -/
theorem isAssignable (h : t.SameOn u names) {source target : JType} (hsource : source.Within names) (hboxed : source.boxed.Within names)
    (htarget : target.Within names) : u.isAssignable source target = t.isAssignable source target := by
  unfold ClassTable.isAssignable
  rw [h.isSubtype hsource htarget]
  cases source with
  | prim p => cases target <;> simp only [h.isSubtype hboxed htarget]
  | _ => cases target <;> rfl

/-! ## Members -/

/-- The members of a name in the set are searched in the same order. -/
theorem memberOrder (h : t.SameOn u names) (hname : name ∈ names) : u.memberOrder name = t.memberOrder name := by
  simp only [ClassTable.memberOrder, h.lineage hname, h.supertypes hname]

/-- The search for members does not leave the set. -/
theorem mem_of_mem_memberOrder (h : t.SameOn u names) (hname : name ∈ names) {n : String} (hn : n ∈ t.memberOrder name) :
    n ∈ names := by
  rcases List.mem_append.mp hn with hn | hn
  · exact h.mem_of_mem_lineage hname hn
  · exact h.mem_of_mem_supertypes hname (List.mem_filter.mp hn).1

/-- Some of the names stand for the same declarations, in the same order. -/
theorem filterMap_underlying? (h : t.SameOn u names) {list : List String} (hlist : ∀ n ∈ list, n ∈ names) :
    list.filterMap u.underlying? = list.filterMap t.underlying? :=
  List.filterMap_congr fun n hn => h.underlying? (hlist n hn)

/-- A name in the set has the same members. -/
theorem members (h : t.SameOn u names) (hname : name ∈ names) (member : String) : u.members name member = t.members name member := by
  unfold ClassTable.members declaredMembers
  rw [h.memberOrder hname, h.canonicalName hname, h.filterMap_underlying? fun n => h.mem_of_mem_memberOrder hname]

/-- A name in the set has the same abstract methods. -/
theorem abstractMethods (h : t.SameOn u names) (hname : name ∈ names) :
    FunctionalInterface.abstractMethods u name = FunctionalInterface.abstractMethods t name := by
  unfold FunctionalInterface.abstractMethods FunctionalInterface.declaredMethods
  rw [h.supertypes hname, h.filterMap_underlying? fun n => h.mem_of_mem_supertypes hname]

/-- A type with its name in the set is the same functional interface, or none in both tables. -/
theorem functionalInterface (h : t.SameOn u names) {type : JType} (htype : type.Within names) :
    FunctionalInterface.find? u type = FunctionalInterface.find? t type := by
  cases type with
  | named k n =>
    have hn := htype n rfl
    unfold FunctionalInterface.find?
    simp only [JType.internalName?, Option.bind_eq_bind, Option.bind_some, h.underlying? hn]
    refine Option.bind_congr fun decl hdecl => ?_
    rw [h.abstractMethods (h.name_mem hn hdecl)]
  | _ => rfl

/-- A member of a type in the set is accessible alike. -/
theorem isAccessible (h : t.SameOn u names) {accessing : String} (haccessing : accessing ∈ names) {m : MethodDecl}
    (hdeclaring : m.declaring ∈ names) : Linkage.isAccessible u accessing m = Linkage.isAccessible t accessing m := by
  simp only [Linkage.isAccessible, h.canonicalName haccessing, h.canonicalName hdeclaring,
    h.supertypes (h.canonicalName_mem haccessing)]

end SameOn

/-! ## Registering what nothing mentions -/

/-- The tables give the same answers to every question about the names. -/
structure SameAnswers (t u : ClassTable) (names : Set String) : Prop where
  underlying? : ∀ n ∈ names, u.underlying? n = t.underlying? n
  canonicalType : ∀ type : JType, type.Within names → u.canonicalType type = t.canonicalType type
  lineage : ∀ n ∈ names, u.lineage n = t.lineage n
  supertypes : ∀ n ∈ names, u.supertypes n = t.supertypes n
  isSubtype : ∀ source target : JType, source.Within names → target.Within names → u.isSubtype source target = t.isSubtype source target
  isAssignable : ∀ source target : JType, source.Within names → target.Within names →
    u.isAssignable source target = t.isAssignable source target
  members : ∀ n ∈ names, ∀ member, u.members n member = t.members n member
  functionalInterface : ∀ type : JType, type.Within names → FunctionalInterface.find? u type = FunctionalInterface.find? t type
  isAccessible : ∀ accessing ∈ names, ∀ m : MethodDecl, m.declaring ∈ names →
    Linkage.isAccessible u accessing m = Linkage.isAccessible t accessing m

/-- Tables that register the same under names that are not left answer alike, if the wrapper classes are among the names. -/
theorem SameOn.sameAnswers (h : t.SameOn u names) (hwrapper : ∀ p : Primitive, p.wrapper ∈ names) : t.SameAnswers u names where
  underlying? _ hn := h.underlying? hn
  canonicalType _ htype := h.canonicalType htype
  lineage _ hn := h.lineage hn
  supertypes _ hn := h.supertypes hn
  isSubtype _ _ hsource htarget := h.isSubtype hsource htarget
  isAssignable source target hsource htarget := by
    refine h.isAssignable hsource ?_ htarget
    cases source with
    | prim p =>
      intro n hn
      rw [← Option.some.inj hn]
      exact hwrapper p
    | _ => exact hsource
  members _ hn member := h.members hn member
  functionalInterface _ htype := h.functionalInterface htype
  isAccessible _ haccessing _ hdeclaring := h.isAccessible haccessing hdeclaring

/-- No declaration under another name mentions the name. -/
def Unmentioned (t : ClassTable) (name : String) : Prop :=
  ∀ other ≠ name, ∀ decl, t.get? other = some decl → name ∉ decl.mentions

/-- Under all other names a table registers the same as before, and from them a name that is not mentioned is not reached. -/
theorem sameOn_register {decl : ClassDecl} (h : t.Unmentioned decl.name) : t.SameOn (t.register decl) {n | n ≠ decl.name} where
  get?_eq n hn := by rw [get?_register, if_neg (Ne.symm hn)]
  closed n hn other hother m hm hmentioned := h n hn other hother (hmentioned ▸ hm)

/-- Registering a declaration that no other one mentions, and that is no wrapper class, changes no answer to a question without its
name. -/
theorem sameAnswers_register {decl : ClassDecl} (hwrapper : ∀ p : Primitive, p.wrapper ≠ decl.name) (h : t.Unmentioned decl.name) :
    t.SameAnswers (t.register decl) {n | n ≠ decl.name} :=
  (sameOn_register h).sameAnswers hwrapper

/-- An interface of another package joins the platform types. -/
theorem sameAnswers_register_samplePlatform :
    (∀ p : Primitive, p.wrapper ≠ "demo/Shape") ∧ platform.Unmentioned "demo/Shape" ∧
      platform.SameAnswers (platform.register (ClassDecl.ofInterface "demo/Shape")) {n | n ≠ "demo/Shape"} := by
  have hwrapper : ∀ p : Primitive, p.wrapper ≠ "demo/Shape" := by
    intro p
    cases p <;> decide
  have hmentions : ∀ decl ∈ platformTypes, "demo/Shape" ∉ decl.mentions := by decide +kernel
  have hunmentioned : platform.Unmentioned "demo/Shape" :=
    fun _ _ decl hdecl => hmentions decl (mem_of_get?_empty_registerAll hdecl)
  exact ⟨hwrapper, hunmentioned, sameAnswers_register hwrapper hunmentioned⟩

/-- A wrapper class is not mentioned where its values are boxed, and registering it lets an `int` be passed as a number. -/
example : empty.isAssignable .int (.ofClass WellKnown.number) = false ∧
    (empty.register (wrapperClass .int)).isAssignable .int (.ofClass WellKnown.number) = true := by
  decide +kernel

end ClassTable

end Linkage
