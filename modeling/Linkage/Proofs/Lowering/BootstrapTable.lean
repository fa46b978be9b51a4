import Linkage.Proofs.Lowering.History

/-!
# The table of bootstrap methods

Lowering adds the bootstrap methods of its call sites to a table, and the class file is written with an attribute that holds the table. The
attribute is produced from the class file and needs a name in the pool, so producing it may add that name (`NamesTable`), once. A reader
takes the table back from the attribute, and just its bytes (`publishes_of_made`): the numbers in it are never cut off, as the table has a
limit and every entry has three arguments (`Tabled`).
-/

namespace Linkage

namespace ClassFile

variable {f g h : ClassFile}

/-! ## What changes keep of the table -/

/-- No entry of the table stands there twice, and every entry has the three arguments of a call site. -/
structure Tabled (f : ClassFile) : Prop where
  nodup : f.bootstraps.toList.Nodup
  count : ∀ b ∈ f.bootstraps, b.arguments.length = 3

namespace Tabled

/-- The rest of the class file does not matter. -/
theorem congr (hf : f.Tabled) (hg : g.bootstraps = f.bootstraps) : g.Tabled :=
  ⟨hg ▸ hf.nodup, hg ▸ hf.count⟩

/-- What a class file grows by keeps the table in order. -/
theorem grows (hf : f.Tabled) (hfg : f.Grows g) : g.Tabled := by
  induction hfg with
  | refl => exact hf
  | constant _ _ _ _ ih => exact ih.congr rfl
  | bootstrap _ _ hnew hb ih =>
    refine ⟨nodup_toList_push ih.nodup hnew, fun b hmem => ?_⟩
    rcases Array.mem_push.mp hmem with hmem | rfl
    · exact ih.count b hmem
    · exact hb.count
  | method _ _ ih => exact ih.congr rfl

/-- Constants and methods leave the table alone, and a reference lets the class file grow. -/
theorem change (hf : f.Tabled) (hrecorded : f.Recorded) (c : Change) : (f.change c).Tabled := by
  cases c with
  | constant addition =>
    have hends : Ensures (inPool addition.step) f (fun _ g => g.bootstraps = f.bootstraps) fun _ g => g.bootstraps = f.bootstraps := by
      rw [inPool, ensures_focus]
      exact (Ensures.any _ _).mono (fun _ _ _ => rfl) (fun _ _ _ => rfl)
    exact hf.congr hends.snd_runStep
  | method access name descriptor code =>
    have hends : Ensures (addMethod access name descriptor code) f (fun _ g => g.bootstraps = f.bootstraps)
        fun _ g => g.bootstraps = f.bootstraps := by
      refine (outcome_addMethod Handle.Permitted 0 access name descriptor code hrecorded.fits.pool).mono ?_ ?_
      · rintro _ g ⟨-, -, m, -, -, -, -, hg⟩
        rw [hg]
      · rintro _ g (⟨-, -, rfl⟩ | ⟨-, -, -, rfl⟩ | ⟨-, -, -, -, -, hg⟩)
        · rfl
        · rfl
        · rw [hg]
    exact hf.congr hends.snd_runStep
  | reference request => exact hf.grows (grows_lower hrecorded.fits request)

theorem after (hf : f.Tabled) (hrecorded : f.Recorded) (changes : List Change) : (f.after changes).Tabled := by
  induction changes generalizing f with
  | nil => exact hf
  | cons c cs ih => exact ih (hf.change hrecorded c) (hrecorded.change c).1

end Tabled

theorem Made.tabled (hf : f.Made) : f.Tabled := by
  obtain ⟨name, isInterface, settings, changes, rfl⟩ := hf
  have hempty : (create name isInterface settings).Tabled := ⟨List.nodup_nil, nofun⟩
  exact hempty.after (recorded_create name isInterface settings) changes

/-! ## Producing the attribute -/

/-- The name of the attribute as an entry of the pool. -/
def tableName : Constant :=
  .utf8 Bootstrap.attributeName

/-- `g` is `f`, or `f` with the name of the attribute as a new constant. -/
inductive NamesTable (f : ClassFile) : ClassFile → Prop where
  | same : NamesTable f f
  | named (hnew : tableName ∉ f.pool.entries) (hroom : f.pool.entries.size < Pool.capacity) :
    NamesTable f (f.withPool ⟨f.pool.entries.push tableName⟩)

namespace NamesTable

/-- The name is new once at the most. -/
theorem trans (hfg : f.NamesTable g) (hgh : g.NamesTable h) : f.NamesTable h := by
  cases hgh with
  | same => exact hfg
  | named hnew hroom =>
    cases hfg with
    | same => exact .named hnew hroom
    | named _ _ => exact absurd Array.mem_push_self hnew

theorem bootstraps (hfg : f.NamesTable g) : g.bootstraps = f.bootstraps := by
  cases hfg with
  | same => rfl
  | named _ _ => rfl

theorem fits (hfg : f.NamesTable g) (hf : f.pool.Fits) : g.pool.Fits := by
  cases hfg with
  | same => exact hf
  | named _ hroom =>
    simp only [withPool, Pool.Fits, Array.size_push]
    exact hroom

/-- The name is a constant that can be added by itself, too. -/
theorem made (hfg : f.NamesTable g) (hf : f.Made) : g.Made := by
  cases hfg with
  | same => exact hf
  | named hnew hroom =>
    have hadded : Ensures (inPool (Pool.addUtf8 Bootstrap.attributeName)) f
        (fun _ g => g = f.withPool ⟨f.pool.entries.push tableName⟩) fun _ g => g = f.withPool ⟨f.pool.entries.push tableName⟩ := by
      rw [inPool, ensures_focus]
      refine (Pool.outcome_add tableName f.pool).mono ?_ ?_
      · rintro _ p (⟨hmem, -⟩ | ⟨-, -, rfl⟩)
        · exact absurd hmem hnew
        · rfl
      · rintro _ p ⟨-, -, hfull, -⟩
        exact absurd hroom (Nat.not_lt.mpr hfull)
    obtain ⟨name, isInterface, settings, changes, rfl⟩ := hf
    refine ⟨name, isInterface, settings, changes ++ [.constant (.utf8 Bootstrap.attributeName)], ?_⟩
    rw [after, List.foldl_append, ← after]
    exact hadded.snd_runStep

/-- Without the name in it, the class file is what it was. -/
theorem eq_of_not_mem (hfg : f.NamesTable g) (hg : tableName ∉ g.pool.entries) : g = f := by
  cases hfg with
  | same => rfl
  | named _ _ => exact absurd Array.mem_push_self hg

end NamesTable

/-- From an empty table no attribute is produced. From any other one is, with the encoding of the table, unless its name is not in the pool
and there is no room for it. -/
theorem outcome_bootstrapAttribute (hf : f.pool.Fits) :
    Ensures bootstrapAttribute f
      (fun answer g => f.NamesTable g ∧ (f.bootstraps = #[] ∧ answer = none ∨ f.bootstraps ≠ #[] ∧
        ∃ nameIndex, g.pool.utf8? nameIndex = some Bootstrap.attributeName ∧
          answer = some ⟨nameIndex, Bootstrap.tableBytes f.bootstraps.toList⟩))
      (fun fault g => fault = .pool .full ∧ f.bootstraps ≠ #[] ∧ tableName ∉ f.pool.entries ∧
        Pool.capacity ≤ f.pool.entries.size ∧ g = f) := by
  unfold bootstrapAttribute
  rw [ensures_bind, ensures_get]
  dsimp only
  split
  · rename_i hempty
    have htable : f.bootstraps = #[] := by simpa using hempty
    exact ⟨.same, .inl ⟨htable, rfl⟩⟩
  · rename_i hsome
    have htable : f.bootstraps ≠ #[] := by simpa using hsome
    rw [ensures_bind, inPool, ensures_focus]
    have hname : Pool.Adds Handle.Permitted 0 (Pool.addUtf8 Bootstrap.attributeName) f.pool fun i p =>
        p.utf8? i = some Bootstrap.attributeName := Pool.adds_addUtf8 Bootstrap.attributeName hf
    refine (Ensures.and hname (Pool.outcome_add tableName f.pool)).mono ?_ ?_
    · rintro nameIndex p ⟨⟨-, hindex⟩, hpool⟩
      rw [ensures_pure]
      refine ⟨?_, .inr ⟨htable, nameIndex, hindex, rfl⟩⟩
      rcases hpool with ⟨-, rfl⟩ | ⟨hnew, hroom, rfl⟩
      · exact .same
      · exact .named hnew hroom
    · rintro _ p ⟨-, rfl, hnew, hfull, rfl⟩
      exact ⟨rfl, htable, hnew, hfull, rfl⟩

/-- The class file behind so many productions of the attribute, those that fail among them. -/
def produced (f : ClassFile) : Nat → ClassFile
  | 0 => f
  | count + 1 => (runStep bootstrapAttribute (f.produced count)).2

/-- However often the attribute is produced, its name is the one thing that is added. -/
theorem namesTable_produced (hf : f.pool.Fits) (count : Nat) : f.NamesTable (f.produced count) := by
  induction count with
  | zero => exact .same
  | succ count ih =>
    have hnext : (f.produced count).NamesTable (f.produced (count + 1)) := by
      refine ((outcome_bootstrapAttribute (ih.fits hf)).mono (fun _ _ hview => hview.1) ?_).snd_runStep
      rintro _ g ⟨-, -, -, -, rfl⟩
      exact .same
    exact ih.trans hnext

/-- Behind productions of the attribute the class file may go on being changed. -/
theorem Made.produced (hf : f.Made) (count : Nat) : (f.produced count).Made :=
  (namesTable_produced hf.recorded.fits.pool count).made hf

end ClassFile

/-! ## Reading the table back -/

/-- Parts of the same length in a row. -/
theorem length_flatMap_of_length {α : Type} {as : List α} {encode : α → List UInt8} {size : Nat}
    (h : ∀ a ∈ as, (encode a).length = size) : (as.flatMap encode).length = size * as.length := by
  induction as with
  | nil => rfl
  | cons a as ih =>
    obtain ⟨ha, has⟩ := List.forall_mem_cons.mp h
    rw [List.flatMap_cons, List.length_append, ha, ih has, List.length_cons, Nat.mul_succ, Nat.add_comm]

/-- Behind the number of entries, an entry with three arguments takes ten bytes. -/
theorem Bootstrap.length_tableBytes {table : List Bootstrap} (h : ∀ b ∈ table, b.arguments.length = 3) :
    (tableBytes table).length = 2 + 10 * table.length := by
  have hentry : ∀ b ∈ table, b.toBytes.length = 10 := by
    intro b hb
    have harguments : (b.arguments.flatMap be16).length = 2 * b.arguments.length := length_flatMap_of_length fun _ _ => rfl
    rw [toBytes, List.length_append, harguments, h b hb]
    rfl
  rw [tableBytes, List.length_append, length_flatMap_of_length hentry]
  rfl

/-- The attribute holds the table: it has its name, a reader takes the table from its bytes and leaves none of them, and the number of its bytes
is written in front of them. -/
structure Attribute.Holds (a : Attribute) (p : Pool) (table : List Bootstrap) : Prop where
  name : p.utf8? a.nameIndex = some Bootstrap.attributeName
  read : readTable a.info = some (table, [])
  encoded : ∃ size : UInt32, size.toNat = a.info.length ∧ a.toBytes = be16 a.nameIndex ++ be32 size ++ a.info

namespace ClassFile

variable {f g h : ClassFile}

/-- The encoding of a table in order is read back from the attribute. -/
theorem Tabled.holds (hf : f.Tabled) (hsize : f.bootstraps.size ≤ maxBootstraps) {p : Pool} {nameIndex : UInt16}
    (hname : p.utf8? nameIndex = some Bootstrap.attributeName) :
    Attribute.Holds ⟨nameIndex, Bootstrap.tableBytes f.bootstraps.toList⟩ p f.bootstraps.toList := by
  have hentries : f.bootstraps.toList.length ≤ 65535 := hsize
  have hcount : ∀ b ∈ f.bootstraps.toList, b.arguments.length = 3 := fun b hb => hf.count b (Array.mem_def.mpr hb)
  have hread : Reads readTable (Bootstrap.tableBytes f.bootstraps.toList) f.bootstraps.toList := by
    refine reads_readTable (Nat.lt_succ_of_le hentries) fun b hb => ?_
    rw [hcount b hb]
    decide
  have hlength : (Bootstrap.tableBytes f.bootstraps.toList).length < 4294967296 := by
    rw [Bootstrap.length_tableBytes hcount]
    omega
  refine ⟨hname, ?_, _, UInt32.toNat_ofNat_of_lt' hlength, rfl⟩
  have hall := hread []
  rwa [List.append_nil] at hall

/-- What is published of the table of a class file: it is within its limit and holds no entry twice; and however often the attribute was
produced, only its name may have been added, and the attribute that is produced then holds the table in order, unless the table is empty, or
the name is not in the pool and there is no room for it. -/
structure Publishes (f : ClassFile) : Prop where
  size : f.bootstraps.size ≤ 65535
  nodup : f.bootstraps.toList.Nodup
  produced : ∀ count, f.NamesTable (f.produced count)
  production : ∀ count, Ensures bootstrapAttribute (f.produced count)
    (fun answer g => f.NamesTable g ∧ (f.bootstraps = #[] ∧ answer = none ∨ f.bootstraps ≠ #[] ∧
      ∃ a, answer = some a ∧ a.Holds g.pool f.bootstraps.toList))
    (fun fault g => fault = .pool .full ∧ f.bootstraps ≠ #[] ∧ tableName ∉ f.pool.entries ∧
      Pool.capacity ≤ f.pool.entries.size ∧ g = f)

/-- A class file that was empty at first publishes its table, whatever was done to it since. -/
theorem publishes_of_made (hf : f.Made) : f.Publishes := by
  have hfits := hf.recorded.fits
  refine ⟨hfits.bootstraps, hf.tabled.nodup, namesTable_produced hfits.pool, fun count => ?_⟩
  have hnames := namesTable_produced hfits.pool count
  have htable := hnames.bootstraps
  refine (outcome_bootstrapAttribute (hnames.fits hfits.pool)).mono ?_ ?_
  · rw [htable]
    rintro answer g ⟨hnext, hanswer⟩
    refine ⟨hnames.trans hnext, hanswer.imp_right fun hsome => ?_⟩
    obtain ⟨hsome, nameIndex, hname, rfl⟩ := hsome
    exact ⟨hsome, _, rfl, hf.tabled.holds hfits.bootstraps hname⟩
  · rintro fault g ⟨hfault, hsome, hnew, hfull, rfl⟩
    have hsame := hnames.eq_of_not_mem hnew
    rw [hsame] at hsome hnew hfull
    exact ⟨hfault, hsome, hnew, hfull, hsame⟩

/-- A class file with the one call site of a lowered reference. -/
def sampleLinked : ClassFile :=
  (create "demo/Main" false {}).after [.reference .sample]

theorem publishes_of_made_sampleLinked : sampleLinked.Made ∧ sampleLinked.bootstraps.size = 1 ∧ sampleLinked.Publishes := by
  have hmade : sampleLinked.Made := ⟨"demo/Main", false, {}, [.reference .sample], rfl⟩
  exact ⟨hmade, by decide +kernel, publishes_of_made hmade⟩

end ClassFile

end Linkage
