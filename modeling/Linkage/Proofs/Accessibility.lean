import Linkage.Accessibility
import Mathlib.Data.List.TakeWhile

/-!
# Access and declared visibility

A method that may be used should stay usable when it is declared as more widely visible. Packages, subclasses and everybody nest so by
their definition. A nest is found in the package of its members only by name: the host is what stands before the first dollar sign of the
whole name, the package what stands before the last slash. Access grows with the visibility exactly where two types of one nest are in one
package (`growsWithVisibility_iff`), so wherever no package has a dollar sign in its own name; two packages that have one may share
private methods that they do not share as package-private ones (`not_growsWithVisibility_sampleOwner`).
-/

namespace Linkage

/-! ## Packages and nests by name -/

/-- What stands before the last slash of a name is its package. -/
theorem packageName_of_split {name : String} {package rest : List Char} (h : name.toList = package ++ '/' :: rest) (hrest : '/' ∉ rest) :
    packageName name = String.ofList package := by
  have hdrop : ∀ c ∈ rest.reverse, decide (c ≠ '/') = true := by
    intro c hc
    refine decide_eq_true fun heq => hrest ?_
    rw [← heq]
    exact List.mem_reverse.mp hc
  rw [packageName, h, List.reverse_append, List.reverse_cons, List.append_assoc, List.dropWhile_append_of_pos hdrop]
  simp

/-- A name without a slash is in no package. -/
theorem packageName_of_notMem {name : String} (h : '/' ∉ name.toList) : packageName name = "" := by
  have hdrop : name.toList.reverse.dropWhile (· ≠ '/') = [] := by
    refine List.dropWhile_eq_nil_iff.mpr fun c hc => decide_eq_true fun heq => h ?_
    rw [← heq]
    exact List.mem_reverse.mp hc
  rw [packageName, hdrop]
  rfl

/-- A name has no slash, or a last one. -/
theorem exists_split_or_notMem (name : String) :
    '/' ∉ name.toList ∨ ∃ package rest, name.toList = package ++ '/' :: rest ∧ '/' ∉ rest := by
  by_cases h : '/' ∈ name.toList
  · obtain ⟨rest, package, hsplit, hrest⟩ := List.eq_append_cons_of_mem (List.mem_reverse.mpr h)
    refine .inr ⟨package.reverse, rest.reverse, ?_, fun hmem => hrest (List.mem_reverse.mp hmem)⟩
    rw [← List.reverse_reverse name.toList, hsplit]
    simp
  · exact .inl h

/-- The outermost class is in the package of every class in it, unless that package has a dollar sign in its own name. -/
theorem packageName_nestHost {name : String} (h : '$' ∉ (packageName name).toList) : packageName (nestHost name) = packageName name := by
  have hsub : ∀ {cs : List Char}, '/' ∉ cs → '/' ∉ cs.takeWhile (· ≠ '$') :=
    fun hcs hmem => hcs ((List.takeWhile_sublist _).subset hmem)
  rcases exists_split_or_notMem name with hname | ⟨package, rest, hname, hrest⟩
  · rw [packageName_of_notMem hname]
    refine packageName_of_notMem ?_
    rw [nestHost, String.toList_ofList]
    exact hsub hname
  · rw [packageName_of_split hname hrest] at h ⊢
    rw [String.toList_ofList] at h
    have hpackage : ∀ c ∈ package, decide (c ≠ '$') = true := by
      intro c hc
      refine decide_eq_true fun heq => h ?_
      rw [← heq]
      exact hc
    -- neither the package nor the slash ends the prefix, so the cut is behind the slash
    have hhost : (nestHost name).toList = package ++ '/' :: rest.takeWhile (· ≠ '$') := by
      rw [nestHost, String.toList_ofList, hname, List.takeWhile_append_of_pos hpackage, List.takeWhile_cons_of_pos (by decide)]
    exact packageName_of_split hhost (hsub hrest)

/-- Two types of one nest are in one package when no package has a dollar sign in its name. -/
theorem packageName_eq_of_nestHost_eq {owner user : String} (howner : '$' ∉ (packageName owner).toList)
    (huser : '$' ∉ (packageName user).toList) (h : nestHost owner = nestHost user) : packageName owner = packageName user :=
  calc packageName owner
    _ = packageName (nestHost owner) := (packageName_nestHost howner).symm
    _ = packageName (nestHost user) := by rw [h]
    _ = packageName user := packageName_nestHost huser

/-! ## Wider visibilities -/

/-- The visibilities in the order of the claims they make: the nest, the package, the package and all subclasses, everybody. -/
def Visibility.rank : Visibility → Nat
  | nest => 0
  | package => 1
  | subclasses => 2
  | everywhere => 3

/-- What a visibility asks of the type that declares a method and of the one that uses it. -/
def Visibility.Grants (classes : ClassTable) (owner user : String) : Visibility → Prop
  | nest => nestHost owner = nestHost user
  | package => packageName owner = packageName user
  | subclasses => packageName owner = packageName user ∨ owner ∈ classes.supertypes user
  | everywhere => True

variable {classes : ClassTable} {accessing owner user : String} {m : MethodDecl}

/-- A method may be used where its visibility grants it; both types count under the names of what they stand for. -/
theorem isAccessible_iff_grants :
    isAccessible classes accessing m = true ↔
      m.visibility.Grants classes (classes.canonicalName m.declaring) (classes.canonicalName accessing) := by
  unfold isAccessible
  cases m.visibility <;> simp [Visibility.Grants]

/-- From the package on, what one visibility grants every wider one grants. -/
theorem Visibility.Grants.of_rank_le {v w : Visibility} (hv : v ≠ .nest) (hle : v.rank ≤ w.rank) (h : v.Grants classes owner user) :
    w.Grants classes owner user := by
  cases v with
  | nest => exact absurd rfl hv
  | package =>
    cases w with
    | nest => simp [Visibility.rank] at hle
    | package => exact h
    | subclasses => exact .inl h
    | everywhere => trivial
  | subclasses =>
    cases w with
    | nest | package => simp [Visibility.rank] at hle
    | subclasses => exact h
    | everywhere => trivial
  | everywhere =>
    cases w with
    | nest | package | subclasses => simp [Visibility.rank] at hle
    | everywhere => trivial

/-- What is granted to a nest is granted to every wider circle just when it is granted to the package. -/
theorem Visibility.grants_of_nest_iff :
    (∀ v w : Visibility, v.rank ≤ w.rank → v.Grants classes owner user → w.Grants classes owner user) ↔
      (nestHost owner = nestHost user → packageName owner = packageName user) := by
  refine ⟨fun h => h .nest .package (Nat.zero_le 1), fun hnest v w hle hv => ?_⟩
  by_cases hvNest : v = .nest
  · subst hvNest
    by_cases hwNest : w = .nest
    · exact hwNest ▸ hv
    · -- every other circle contains the package
      have hpackage : Visibility.package.Grants classes owner user := hnest hv
      refine hpackage.of_rank_le (by decide) ?_
      cases w <;> simp_all [Visibility.rank]
  · exact hv.of_rank_le hvNest hle

/-- A method that a type's code may use with some access flags may be used there with all flags that declare no narrower visibility. -/
def GrowsWithVisibility (classes : ClassTable) (accessing : String) (m : MethodDecl) : Prop :=
  ∀ a b : Access, a.visibility.rank ≤ b.visibility.rank → isAccessible classes accessing { m with access := a } = true →
    isAccessible classes accessing { m with access := b } = true

/-- Some flags declare each visibility. -/
theorem Access.exists_visibility_eq (v : Visibility) : ∃ a : Access, a.visibility = v := by
  cases v with
  | nest => exact ⟨.accPrivate, by decide⟩
  | package => exact ⟨⟨0⟩, by decide⟩
  | subclasses => exact ⟨.accProtected, by decide⟩
  | everywhere => exact ⟨.accPublic, by decide⟩

/-- Access grows with the visibility from package-private on, for every class table and every two types. From private on it grows exactly
when the declaring type and the one that uses the method, if they are in one nest, are in one package; so it does when no package has a
dollar sign in its own name. -/
theorem growsWithVisibility_iff (classes : ClassTable) (accessing : String) (m : MethodDecl) :
    (∀ a b : Access, a.visibility ≠ .nest → a.visibility.rank ≤ b.visibility.rank →
      isAccessible classes accessing { m with access := a } = true → isAccessible classes accessing { m with access := b } = true) ∧
    (GrowsWithVisibility classes accessing m ↔
      (nestHost (classes.canonicalName m.declaring) = nestHost (classes.canonicalName accessing) →
        packageName (classes.canonicalName m.declaring) = packageName (classes.canonicalName accessing))) ∧
    ('$' ∉ (packageName (classes.canonicalName m.declaring)).toList → '$' ∉ (packageName (classes.canonicalName accessing)).toList →
      GrowsWithVisibility classes accessing m) := by
  have hiff : GrowsWithVisibility classes accessing m ↔
      (nestHost (classes.canonicalName m.declaring) = nestHost (classes.canonicalName accessing) →
        packageName (classes.canonicalName m.declaring) = packageName (classes.canonicalName accessing)) := by
    rw [← @Visibility.grants_of_nest_iff classes]
    simp only [GrowsWithVisibility, isAccessible_iff_grants, MethodDecl.visibility]
    refine ⟨fun h v w => ?_, fun h a b => h a.visibility b.visibility⟩
    obtain ⟨a, rfl⟩ := Access.exists_visibility_eq v
    obtain ⟨b, rfl⟩ := Access.exists_visibility_eq w
    exact h a b
  refine ⟨fun a b ha hle hgrants => ?_, hiff, fun howner huser => hiff.mpr (packageName_eq_of_nestHost_eq howner huser)⟩
  rw [isAccessible_iff_grants] at hgrants ⊢
  exact hgrants.of_rank_le ha hle

/-! ## Samples -/

/-- A private method of a class that has another class in it. -/
def sampleSecret : MethodDecl :=
  { name := "secret", params := [], result := .void, access := .accPrivate, declaring := "p/Outer" }

def sampleNest : ClassTable :=
  .registerAll .empty [(ClassDecl.ofClass "p/Outer").addMethods [sampleSecret], .ofClass "p/Outer$Inner"]

/-- The class in the nest may use the private method, so it may use the method whatever its flags. -/
theorem growsWithVisibility_sampleSecret : isAccessible sampleNest "p/Outer$Inner" sampleSecret = true ∧
    ∀ b : Access, isAccessible sampleNest "p/Outer$Inner" { sampleSecret with access := b } = true := by
  have hprivate : isAccessible sampleNest "p/Outer$Inner" sampleSecret = true := by decide +kernel
  have hgrows : GrowsWithVisibility sampleNest "p/Outer$Inner" sampleSecret :=
    (growsWithVisibility_iff sampleNest "p/Outer$Inner" sampleSecret).2.2 (by decide +kernel) (by decide +kernel)
  exact ⟨hprivate, fun b => hgrows .accPrivate b (Nat.zero_le _) hprivate⟩

/-- A class with a private and a package-private method, in a package with a dollar sign in its name. -/
def sampleOwner : ClassDecl :=
  (ClassDecl.ofClass "p$q/Owner").addMethods
    [{ name := "f", params := [], result := .void, access := .accPrivate },
      { name := "f", params := [.ofType "x" .int], result := .void, access := ⟨0⟩ }]

def sampleApart : ClassTable :=
  .registerAll .empty [sampleOwner]

/-- A class of another package, whose name is the same up to its dollar sign, may use the private method but not the package-private one. -/
theorem not_growsWithVisibility_sampleOwner : sampleApart.get? "p$q/Owner" = some sampleOwner ∧
    sampleOwner.methods.map (isAccessible sampleApart "p$r/User") = [true, false] ∧
    ∀ m ∈ sampleOwner.methods, ¬ GrowsWithVisibility sampleApart "p$r/User" m := by
  have hprivate : ∀ m ∈ sampleOwner.methods, isAccessible sampleApart "p$r/User" { m with access := .accPrivate } = true := by
    decide +kernel
  have hpackage : ∀ m ∈ sampleOwner.methods, isAccessible sampleApart "p$r/User" { m with access := ⟨0⟩ } = false := by
    decide +kernel
  refine ⟨by decide +kernel, by decide +kernel, fun m hm hgrows => ?_⟩
  have := hgrows .accPrivate ⟨0⟩ (by decide) (hprivate m hm)
  rw [hpackage m hm] at this
  cases this

end Linkage
