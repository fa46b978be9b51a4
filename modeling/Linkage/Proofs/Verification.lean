import Linkage.Proofs.Lowering.Run
import Linkage.Proofs.Verification.Checks

/-!
# Lowering keeps class files sound

`ClassFile.Sound` is the invariant of a class file that code is lowered into: every constant, bootstrap method and method finds in the
file what it refers to. It holds of an empty class file, growth keeps it, and a sound class file passes the verifier. So a class file
passes it after every request, whatever became of the requests.
-/

namespace Linkage

/-- A method that may join a class file may stay in it while the class file grows. -/
theorem MethodEntry.Admitted.mono {f g : ClassFile} {m : MethodEntry} (hm : m.Admitted f) (hpool : f.pool.Extends g.pool)
    (hinterface : g.isInterface = f.isInterface) : m.Admitted g := by
  obtain ⟨index, body, hattributes, hindex, hsize, hreturn⟩ := hm.body
  exact ⟨by rw [hinterface]; exact hm.flags, hm.concrete, hm.name.imp fun _ => hpool.utf8?, hm.descriptor.imp fun _ => hpool.utf8?,
    index, body, hattributes, hpool.utf8? hindex, hsize, hreturn⟩

/-- A bootstrap method that is admitted stays so while the pool is extended. -/
theorem Bootstrap.Admitted.mono {p q : Pool} {b : Bootstrap} (hb : b.Admitted p) (h : p.Extends q) : b.Admitted q := by
  refine ⟨hb.handle.imp fun _ => h.handle?, fun a ha => ?_, hb.count⟩
  rcases hb.arguments a ha with ⟨k, hk⟩ | ⟨d, hd⟩
  · exact .inl ⟨k, h.handle? hk⟩
  · exact .inr ⟨d, h.methodType? hd⟩

namespace ClassFile

variable {f g : ClassFile}

/-- Every entry of the class file's tables finds in it what it refers to. -/
structure Sound (f : ClassFile) : Prop where
  fits : f.Fits
  version : oldestVersion ≤ f.majorVersion
  constants : ∀ c ∈ f.pool.entries, c.Admitted Handle.Permitted f.bootstraps.size f.pool
  bootstraps : ∀ b ∈ f.bootstraps, b.Admitted f.pool
  methods : ∀ m ∈ f.methods, m.Admitted f

/-- An empty class file has nothing that could be unsound but its version. -/
theorem sound_create {name : String} {isInterface : Bool} {settings : Settings} (h : settings.check = .ok ()) :
    (create name isInterface settings).Sound := by
  refine ⟨fits_create name isInterface settings, ?_, by simp [create], by simp [create], by simp [create]⟩
  unfold Settings.check at h
  split at h
  · cases h
  · rename_i hversion
    simp only [Bool.or_eq_true, decide_eq_true_eq, not_or, UInt16.not_lt] at hversion
    exact hversion.1

/-- Growth keeps a class file sound: what is pushed is admitted, and what was there keeps what it refers to. -/
theorem Grows.sound (h : f.Grows g) (hf : f.Sound) : g.Sound := by
  induction h with
  | refl => exact hf
  | @constant g c hfg hroom hnew hc ih =>
    have hext : g.pool.Extends ⟨g.pool.entries.push c⟩ := Pool.extends_push _ _
    refine ⟨(Grows.constant hfg hroom hnew hc).fits hf.fits, ih.version, fun d hd => ?_, fun b hb => (ih.bootstraps b hb).mono hext,
      fun m hm => (ih.methods m hm).mono hext rfl⟩
    rcases Array.mem_push.mp hd with hd | rfl
    · exact hext.admitted (Nat.le_refl _) (ih.constants d hd)
    · exact hext.admitted (Nat.le_refl _) hc
  | @bootstrap g b hfg hroom hnew hb ih =>
    refine ⟨(Grows.bootstrap hfg hroom hnew hb).fits hf.fits, ih.version, fun c hc => ?_, fun d hd => ?_,
      fun m hm => (ih.methods m hm).mono (Pool.Extends.refl _) rfl⟩
    · exact (Pool.Extends.refl _).admitted (by simp) (ih.constants c hc)
    · rcases Array.mem_push.mp hd with hd | rfl
      · exact ih.bootstraps d hd
      · exact hb
  | @method g m hfg hm ih =>
    refine ⟨(Grows.method hfg hm).fits hf.fits, ih.version, ih.constants, ih.bootstraps, fun n hn => ?_⟩
    rcases Array.mem_push.mp hn with hn | rfl
    · exact (ih.methods n hn).mono (Pool.Extends.refl _) rfl
    · exact hm.mono (Pool.Extends.refl _) rfl

end ClassFile

/-! ## What the verifier finds -/

/-- From the oldest version on, versions agree on what handles may name. -/
theorem handleMembers?_of_le {version : UInt16} (h : oldestVersion ≤ version) (number : UInt8) :
    handleMembers? version number = handleMembers? oldestVersion number := by
  simp [handleMembers?, h]

namespace Pool

variable {p : Pool} {index : UInt16}

/-- An index that reads as a text holds one. -/
theorem holds_utf8 (h : ∃ s, p.utf8? index = some s) : p.Holds index Constant.isUtf8 := by
  obtain ⟨s, hs⟩ := h
  exact ⟨_, utf8?_eq_some_iff.mp hs, rfl⟩

/-- An index that reads as the name of a class holds a class. -/
theorem holds_class (h : ∃ s, p.className? index = some s) : p.Holds index Constant.isClass := by
  obtain ⟨s, hs⟩ := h
  obtain ⟨n, hn, -⟩ := className?_eq_some_iff.mp hs
  exact ⟨_, hn, rfl⟩

/-- An index that reads as a name and type holds one. -/
theorem holds_nameAndType (h : ∃ s, p.nameAndType? index = some s) : p.Holds index Constant.isNameAndType := by
  obtain ⟨s, hs⟩ := h
  obtain ⟨n, d, hn, -⟩ := nameAndType?_eq_some_iff.mp hs
  exact ⟨_, hn, rfl⟩

/-- What a bootstrap method may take as an argument can be loaded. -/
theorem holds_loadable (h : (∃ k, p.handle? index = some k) ∨ ∃ d, p.methodType? index = some d) :
    p.Holds index Constant.isLoadable := by
  rcases h with ⟨k, hk⟩ | ⟨d, hd⟩
  · obtain ⟨m, hm, -⟩ := handle?_eq_some_iff.mp hk
    exact ⟨_, hm, rfl⟩
  · obtain ⟨n, hn, -⟩ := methodType?_eq_some_iff.mp hd
    exact ⟨_, hn, rfl⟩

end Pool

section Placed

variable {f : ClassFile}

/-- The indices of an admitted constant lead to what their places ask for. -/
theorem Constant.Admitted.placed {c : Constant} (hc : c.Admitted Handle.Permitted f.bootstraps.size f.pool)
    (hversion : oldestVersion ≤ f.majorVersion) : c.Placed f := by
  cases c with
  | utf8 _ => trivial
  | integer _ => trivial
  | classRef n => exact Pool.holds_utf8 hc
  | string t => exact Pool.holds_utf8 hc
  | member k o s => exact ⟨Pool.holds_class hc.1, Pool.holds_nameAndType hc.2⟩
  | nameAndType n d => exact ⟨Pool.holds_utf8 hc.1, Pool.holds_utf8 hc.2⟩
  | methodHandle number reference =>
    obtain ⟨kind, m, hm, kinds, hkinds, hmem⟩ := hc
    obtain ⟨o, s, hget, -⟩ := Pool.kindAndMember?_eq_some_iff.mp hm
    refine ⟨kinds, ?_, _, hget, by simpa [Constant.isMemberOf] using hmem⟩
    rw [handleMembers?_of_le hversion, hkinds]
  | methodType d => exact Pool.holds_utf8 hc
  | invokeDynamic b s => exact ⟨hc.1, Pool.holds_nameAndType hc.2⟩

/-- A bootstrap method that is admitted passes its check. -/
theorem Bootstrap.Admitted.placed {b : Bootstrap} (hb : b.Admitted f.pool) : b.Placed f := by
  obtain ⟨⟨k, hk⟩, harguments, -⟩ := hb
  obtain ⟨m, hm, -⟩ := Pool.handle?_eq_some_iff.mp hk
  exact ⟨⟨_, hm, rfl⟩, fun a ha => Pool.holds_loadable (harguments a ha)⟩

/-- A method that is admitted passes its check. -/
theorem MethodEntry.Admitted.placed {m : MethodEntry} (hm : m.Admitted f) : m.Placed f := by
  obtain ⟨index, body, hattributes, hindex, hsize, opcode, hopcode, hlast⟩ := hm.body
  exact ⟨hm.flags, Pool.holds_utf8 hm.name, Pool.holds_utf8 hm.descriptor,
    (ClassFile.hasBody_iff_of_attributes hm.concrete hattributes hindex hsize).mpr ⟨opcode, hlast, hopcode⟩⟩

end Placed

namespace ClassFile

variable {f : ClassFile}

/-- A sound class file passes the verifier. -/
theorem Sound.verify_eq_ok (hf : f.Sound) : f.verify = .ok () := by
  have hversion : dynamicVersion ≤ f.majorVersion := UInt16.le_trans (by decide) hf.version
  exact verify_eq_ok_iff.mpr ⟨.inl hversion, fun c hc => (hf.constants c hc).placed hf.version, fun b hb => (hf.bootstraps b hb).placed,
    fun m hm => (hf.methods m hm).placed⟩

/-- A class file that was begun with usable settings passes the verifier after every one of the requests that are lowered into it,
whatever these are and whatever becomes of them. -/
theorem verify_lowerAll {name : String} {isInterface : Bool} {settings : Settings} (hsettings : settings.check = .ok ())
    (requests : List Request) (count : Nat) :
    ((create name isInterface settings).lowerAll (requests.take count)).verify = .ok () := by
  have hgrows := grows_lowerAll (fits_create name isInterface settings) (requests.take count)
  exact (hgrows.sound (sound_create hsettings)).verify_eq_ok

/-- The default settings are usable, and two requests may be the same. -/
theorem verify_lowerAll_sample : ({} : Settings).check = .ok () ∧
    ((create "demo/Main" false {}).lowerAll ([Request.sample, Request.sample].take 2)).verify = .ok () := by
  have hsettings : ({} : Settings).check = .ok () := by
    have htoOption : ({} : Settings).check.toOption = some () := by decide +kernel
    cases hcheck : ({} : Settings).check with
    | ok _ => rfl
    | error fault =>
      rw [hcheck] at htoOption
      cases htoOption
  exact ⟨hsettings, verify_lowerAll hsettings [Request.sample, Request.sample] 2⟩

end ClassFile

end Linkage
