import Linkage.Proofs.ClassFile.Encoding
import Linkage.Proofs.Pool.Additions

/-!
# Reading a pool back

The layout of class files as a reader: a pool is the number of its entries and one, in two bytes, then the entries, each a tag and its
fields; a text is its number of bytes, in two bytes, then the bytes. What a reader takes from the front of some bytes does not depend
on what follows (`Reads`), so the readers of the parts of an encoding make a reader of the whole. The encoding of a pool is read back as
the pool exactly when no text in it is too long for two bytes.
-/

namespace Linkage

/-- A reader takes something from the front of the bytes and leaves the rest, or fails. -/
abbrev Reader (α : Type) : Type :=
  StateT (List UInt8) Option α

variable {α β : Type}

/-! ## Readers of parts -/

/-- Whatever follows the bytes, the reader takes just them, for that value. -/
def Reads (reader : Reader α) (bytes : List UInt8) (a : α) : Prop :=
  ∀ rest, reader (bytes ++ rest) = some (a, rest)

/-- What needs no bytes is read from none. -/
theorem reads_pure (a : α) : Reads (pure a) [] a :=
  fun _ => rfl

/-- What one reader leaves, the next one takes from. -/
theorem reads_bind {x : Reader α} {f : α → Reader β} {first second : List UInt8} {a : α} {b : β} (hx : Reads x first a)
    (hf : Reads (f a) second b) : Reads (x >>= f) (first ++ second) b := by
  intro rest
  change (x (first ++ second ++ rest)).bind (fun p => f p.1 p.2) = _
  rw [List.append_assoc, hx]
  exact hf rest

/-- What follows on a reader need not take any bytes. -/
theorem reads_then {x : Reader α} {f : α → Reader β} {bytes : List UInt8} {a : α} {b : β} (hx : Reads x bytes a)
    (hf : Reads (f a) [] b) : Reads (x >>= f) bytes b := by
  have h := reads_bind hx hf
  rwa [List.append_nil] at h

/-- A reader of one part, with its value put into something. -/
theorem reads_map {x : Reader α} {bytes : List UInt8} {a : α} (f : α → β) (hx : Reads x bytes a) :
    Reads (do return f (← x)) bytes (f a) :=
  reads_then hx (reads_pure (f a))

/-- A reader of two parts, with their values put into something. -/
theorem reads_pair {x : Reader α} {y : Reader β} {γ : Type} {first second : List UInt8} {a : α} {b : β} (f : α → β → γ)
    (hx : Reads x first a) (hy : Reads y second b) : Reads (do return f (← x) (← y)) (first ++ second) (f a b) :=
  reads_bind hx (reads_map (f a) hy)

def readByte : Reader UInt8
  | [] => none
  | b :: rest => some (b, rest)

def readBytes (size : Nat) : Reader (List UInt8) := fun bytes =>
  if size ≤ bytes.length then some (bytes.take size, bytes.drop size) else none

def readWord : Reader UInt16 := do
  return word16 (← readByte) (← readByte)

def readInteger : Reader Int32 := do
  return (word32 (← readByte) (← readByte) (← readByte) (← readByte)).toInt32

/-- A text with its number of bytes in front of it. -/
def readText : Reader String := do
  let size ← readWord
  let bytes ← readBytes size.toNat
  StateT.lift (String.fromUTF8? ⟨bytes.toArray⟩)

/-- One byte is read back. -/
theorem reads_readByte (b : UInt8) : Reads readByte [b] b :=
  fun _ => rfl

/-- So many bytes are read back. -/
theorem reads_readBytes (bytes : List UInt8) : Reads (readBytes bytes.length) bytes bytes := by
  intro rest
  simp [readBytes]

/-- A word is read back from its two bytes. -/
theorem reads_readWord (w : UInt16) : Reads readWord (be16 w) w := by
  intro rest
  change some (word16 (w >>> 8).toUInt8 w.toUInt8, rest) = _
  rw [word16_be16]

/-- A number is read back from its four bytes. -/
theorem reads_readInteger (value : Int32) : Reads readInteger (be32 value.toUInt32) value := by
  intro rest
  change some ((word32 (value.toUInt32 >>> 24).toUInt8 (value.toUInt32 >>> 16).toUInt8 (value.toUInt32 >>> 8).toUInt8
    value.toUInt32.toUInt8).toInt32, rest) = _
  rw [word32_be32, Int32.toInt32_toUInt32]

/-- The text of the bytes of a text. -/
theorem fromUTF8?_utf8Bytes (text : String) : String.fromUTF8? ⟨(utf8Bytes text).toArray⟩ = some text := by
  simp only [utf8Bytes, Array.toArray_toList, String.fromUTF8?, String.toUTF8_eq_toByteArray, dif_pos text.isValidUTF8]
  rfl

/-- The bytes of the text of some bytes. -/
theorem utf8Bytes_of_fromUTF8? {bytes : List UInt8} {text : String} (h : String.fromUTF8? ⟨bytes.toArray⟩ = some text) :
    utf8Bytes text = bytes := by
  unfold String.fromUTF8? at h
  split at h
  · rw [← Option.some.inj h]
    simp [utf8Bytes, String.fromUTF8]
  · cases h

/-- A text is short enough for its length to be written in two bytes. -/
def TextFits (text : String) : Prop :=
  (utf8Bytes text).length < 65536

/-- The entry is not a text that is too long. -/
def Constant.Fits (c : Constant) : Prop :=
  ∀ text, c = .utf8 text → TextFits text

/-- A text is read back, if its length fits into two bytes. -/
theorem reads_readText {text : String} (h : TextFits text) :
    Reads readText (be16 (utf8Bytes text).length.toUInt16 ++ utf8Bytes text) text := by
  have hsize : (utf8Bytes text).length.toUInt16.toNat = (utf8Bytes text).length := UInt16.toNat_ofNat_of_lt' h
  have htext : Reads (StateT.lift (String.fromUTF8? ⟨(utf8Bytes text).toArray⟩)) [] text := by
    rw [fromUTF8?_utf8Bytes]
    exact reads_pure text
  refine reads_bind (reads_readWord _) ?_
  rw [hsize]
  exact reads_then (reads_readBytes (utf8Bytes text)) htext

/-! ## Entries and pools -/

/-- The fields of an entry, by the tag in front of them. -/
def readFields : Nat → Reader Constant
  | 1 => do return .utf8 (← readText)
  | 3 => do return .integer (← readInteger)
  | 7 => do return .classRef (← readWord)
  | 8 => do return .string (← readWord)
  | 9 => do return .member .field (← readWord) (← readWord)
  | 10 => do return .member .method (← readWord) (← readWord)
  | 11 => do return .member .interfaceMethod (← readWord) (← readWord)
  | 12 => do return .nameAndType (← readWord) (← readWord)
  | 15 => do return .methodHandle (← readByte) (← readWord)
  | 16 => do return .methodType (← readWord)
  | 18 => do return .invokeDynamic (← readWord) (← readWord)
  | _ => failure

def readConstant : Reader Constant := do
  readFields (← readByte).toNat

def readConstants : Nat → Reader (List Constant)
  | 0 => pure []
  | count + 1 => do return (← readConstant) :: (← readConstants count)

def readPool : Reader Pool := do
  let indices ← readWord
  if indices = 0 then failure
  return ⟨(← readConstants (indices.toNat - 1)).toArray⟩

/-- The pool of an encoding that holds a pool and no more. -/
def Pool.ofBytes? (bytes : List UInt8) : Option Pool :=
  match readPool bytes with
  | some (p, []) => some p
  | _ => none

/-- An entry with no text that is too long is read back from its encoding. -/
theorem reads_readConstant (c : Constant) (h : c.Fits) : Reads readConstant c.toBytes c := by
  have htag : ∀ {tag : UInt8} {bytes : List UInt8}, Reads (readFields tag.toNat) bytes c → Reads readConstant (tag :: bytes) c :=
    fun hfields => reads_bind (reads_readByte _) hfields
  cases c with
  | utf8 text => exact htag (reads_map _ (reads_readText (h text rfl)))
  | integer value => exact htag (reads_map _ (reads_readInteger value))
  | classRef name => exact htag (reads_map _ (reads_readWord name))
  | string text => exact htag (reads_map _ (reads_readWord text))
  | member kind owner signature =>
    cases kind <;> exact htag (reads_pair _ (reads_readWord owner) (reads_readWord signature))
  | nameAndType name descriptor => exact htag (reads_pair _ (reads_readWord name) (reads_readWord descriptor))
  | methodHandle number reference => exact htag (reads_pair _ (reads_readByte number) (reads_readWord reference))
  | methodType descriptor => exact htag (reads_map _ (reads_readWord descriptor))
  | invokeDynamic bootstrap signature => exact htag (reads_pair _ (reads_readWord bootstrap) (reads_readWord signature))

/-- Constants in a row are read back, if their texts fit. -/
theorem reads_readConstants (cs : List Constant) (h : ∀ c ∈ cs, c.Fits) :
    Reads (readConstants cs.length) (cs.flatMap Constant.toBytes) cs := by
  induction cs with
  | nil => exact reads_pure []
  | cons c cs ih =>
    obtain ⟨hc, hcs⟩ := List.forall_mem_cons.mp h
    exact reads_pair _ (reads_readConstant c hc) (ih hcs)

/-- A pool is read back, if the texts in it fit. -/
theorem reads_readPool {p : Pool} (hp : p.Fits) (h : ∀ c ∈ p.entries, c.Fits) : Reads readPool p.toBytes p := by
  have hindices : (p.entries.size + 1).toUInt16.toNat = p.entries.toList.length + 1 :=
    UInt16.toNat_ofNat_of_lt' (Nat.succ_lt_succ (Nat.lt_succ_of_le hp))
  have hzero : (p.entries.size + 1).toUInt16 ≠ 0 := by
    intro hz
    rw [hz] at hindices
    exact absurd hindices (by simp)
  have hentries := reads_readConstants p.entries.toList fun c hc => h c (Array.mem_def.mpr hc)
  refine reads_bind (reads_readWord _) ?_
  rw [if_neg hzero, hindices, Nat.add_sub_cancel]
  exact reads_map (fun cs : List Constant => Pool.mk cs.toArray) hentries

/-! ## Texts that are read -/

/-- Whatever the bytes, a value that the reader answers is one of those. -/
def Yields (reader : Reader α) (good : α → Prop) : Prop :=
  ∀ bytes a rest, reader bytes = some (a, rest) → good a

/-- Nothing is asked of what a reader yields. -/
theorem yields_any (reader : Reader α) : Yields reader fun _ => True :=
  fun _ _ _ _ => trivial

/-- A reader that fails yields anything. -/
theorem yields_failure {good : α → Prop} : Yields failure good := by
  intro bytes a rest hrun
  cases hrun

/-- A value that is good is yielded. -/
theorem yields_pure {a : α} {good : α → Prop} (h : good a) : Yields (pure a) good := by
  intro bytes b rest hrun
  cases hrun
  exact h

/-- What the second reader yields is good if it is good behind all that the first one yields. -/
theorem yields_bind {x : Reader α} {f : α → Reader β} {good : α → Prop} {good' : β → Prop} (hx : Yields x good)
    (hf : ∀ a, good a → Yields (f a) good') : Yields (x >>= f) good' := by
  intro bytes b rest hrun
  change (x bytes).bind (fun p => f p.1 p.2) = _ at hrun
  obtain ⟨⟨a, left⟩, ha, hb⟩ := Option.bind_eq_some_iff.mp hrun
  exact hf a (hx bytes a left ha) left b rest hb

/-- A reader of so many bytes yields so many. -/
theorem yields_readBytes (size : Nat) : Yields (readBytes size) fun bytes => bytes.length = size := by
  intro bytes taken rest hrun
  unfold readBytes at hrun
  split at hrun
  · cases hrun
    rw [List.length_take]
    omega
  · cases hrun

/-- No text that is read is too long. -/
theorem yields_readText : Yields readText TextFits := by
  refine yields_bind (yields_any _) fun size _ => ?_
  refine yields_bind (yields_readBytes size.toNat) fun bytes hbytes => ?_
  intro left text rest hrun
  change (String.fromUTF8? ⟨bytes.toArray⟩).bind (fun a => some (a, left)) = _ at hrun
  obtain ⟨t, ht, heq⟩ := Option.bind_eq_some_iff.mp hrun
  cases heq
  rw [TextFits, utf8Bytes_of_fromUTF8? ht, hbytes]
  exact size.toNat_lt

/-- Whatever the tag, a reader of fields yields constants whose texts fit. -/
theorem yields_readFields (tag : Nat) : Yields (readFields tag) Constant.Fits := by
  have hword : ∀ {f : UInt16 → Constant}, (∀ a, (f a).Fits) → Yields (do return f (← readWord)) Constant.Fits :=
    fun hf => yields_bind (yields_any _) fun a _ => yields_pure (hf a)
  have hwords : ∀ {f : UInt16 → UInt16 → Constant}, (∀ a b, (f a b).Fits) →
      Yields (do return f (← readWord) (← readWord)) Constant.Fits :=
    fun hf => yields_bind (yields_any _) fun a _ => hword (hf a)
  unfold readFields
  split
  · exact yields_bind yields_readText fun text h => yields_pure fun _ heq => Constant.utf8.inj heq ▸ h
  · exact yields_bind (yields_any _) fun value _ => yields_pure nofun
  · exact hword nofun
  · exact hword nofun
  · exact hwords nofun
  · exact hwords nofun
  · exact hwords nofun
  · exact hwords nofun
  · exact yields_bind (yields_any _) fun number _ => hword nofun
  · exact hword nofun
  · exact hwords nofun
  · exact yields_failure

/-- A reader of constants yields constants whose texts fit. -/
theorem yields_readConstants (count : Nat) : Yields (readConstants count) fun cs => ∀ c ∈ cs, c.Fits := by
  induction count with
  | zero => exact yields_pure nofun
  | succ count ih =>
    refine yields_bind (yields_bind (yields_any _) fun tag _ => yields_readFields tag.toNat) fun c hc => ?_
    exact yields_bind ih fun cs hcs => yields_pure (List.forall_mem_cons.mpr ⟨hc, hcs⟩)

/-- A reader of pools yields pools in which all texts fit. -/
theorem yields_readPool : Yields readPool fun p => ∀ c ∈ p.entries, c.Fits := by
  refine yields_bind (yields_any _) fun indices _ => ?_
  split
  · exact yields_failure
  · refine yields_bind (yields_readConstants _) fun cs hcs => yields_pure fun c hc => hcs c ?_
    exact List.mem_toArray.mp hc

namespace Pool

/-- A pool within its capacity is read back from its encoding exactly when none of its texts is too long. -/
theorem ofBytes?_toBytes_iff {p : Pool} (hp : p.Fits) : ofBytes? p.toBytes = some p ↔ ∀ c ∈ p.entries, c.Fits := by
  constructor
  · intro h
    unfold ofBytes? at h
    split at h
    · rename_i q hread
      cases h
      exact yields_readPool _ _ _ hread
    · cases h
  · intro h
    have hread := reads_readPool hp h []
    rw [List.append_nil] at hread
    rw [ofBytes?, hread]

/-- A pool made by additions in whatever order, failed ones among them, is read back from its encoding, entry by entry and with no byte
left, exactly when every text in it has less than 65536 bytes. -/
theorem ofBytes?_toBytes_addAll (additions : List Addition) :
    ofBytes? (addAll {} additions).toBytes = some (addAll {} additions) ↔
      ∀ text, Constant.utf8 text ∈ (addAll {} additions).entries → (utf8Bytes text).length < 65536 := by
  rw [ofBytes?_toBytes_iff ((gains_addAll fits_empty additions).fits fits_empty)]
  constructor
  · intro h text htext
    exact h _ htext text rfl
  · rintro h _ hc text rfl
    exact h text hc

/-- A text one byte too long for a length of two bytes. -/
def longText : String :=
  String.ofList (List.replicate 65536 'a')

/-- A letter of one byte, so many times, takes so many bytes. -/
theorem length_utf8Bytes_replicate (n : Nat) : (utf8Bytes (String.ofList (List.replicate n 'a'))).length = n := by
  rw [utf8Bytes, String.toUTF8_eq_toByteArray, String.toByteArray_ofList, Array.length_toList]
  change (List.replicate n 'a').utf8Encode.size = n
  induction n with
  | zero => rfl
  | succ n ih =>
    rw [List.replicate_succ, List.utf8Encode_cons, ByteArray.size_append, ih]
    exact Nat.add_comm 1 n

/-- The long text is one byte too long. -/
theorem length_longText : (utf8Bytes longText).length = 65536 :=
  length_utf8Bytes_replicate 65536

/-- Added to the empty pool, a text is its one entry. -/
theorem addAll_utf8 (text : String) : addAll {} [.utf8 text] = ⟨#[.utf8 text]⟩ := by
  simp [addAll, Addition.step, addUtf8, add, runStep, capacity]

/-- A length of 65536 wraps to zero: the encoding is that of the empty text, with all bytes of the text behind it. -/
theorem toBytes_utf8_wraps {text : String} (h : (utf8Bytes text).length = 65536) :
    toBytes ⟨#[.utf8 text]⟩ = toBytes ⟨#[.utf8 ""]⟩ ++ utf8Bytes text := by
  simp only [toBytes, List.flatMap_cons, List.flatMap_nil, Constant.toBytes, h, List.append_nil]
  rfl

/-- The long text is added without a fault, and what is read back from the encoding of the pool is the empty text, with the bytes of the
long one left over. -/
theorem readPool_longText :
    readPool (addAll {} [.utf8 longText]).toBytes = some (⟨#[.utf8 ""]⟩, utf8Bytes longText) ∧
      ofBytes? (addAll {} [.utf8 longText]).toBytes ≠ some (addAll {} [.utf8 longText]) := by
  have hempty : Reads readPool (toBytes ⟨#[.utf8 ""]⟩) ⟨#[.utf8 ""]⟩ := by
    refine reads_readPool (Nat.succ_le_succ (Nat.zero_le 65533)) ?_
    rintro _ hc text rfl
    rw [Constant.utf8.inj (Array.mem_singleton.mp hc)]
    exact Nat.zero_lt_succ 65535
  have hread := hempty (utf8Bytes longText)
  rw [← toBytes_utf8_wraps length_longText, ← addAll_utf8] at hread
  refine ⟨hread, fun h => ?_⟩
  rw [ofBytes?, hread] at h
  have hlength := length_longText
  cases hlong : utf8Bytes longText with
  | nil =>
    rw [hlong] at hlength
    exact Nat.zero_ne_add_one 65535 hlength
  | cons b bytes =>
    rw [hlong] at h
    cases h

end Pool

end Linkage
