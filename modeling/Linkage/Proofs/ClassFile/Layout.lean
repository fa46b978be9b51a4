import Linkage.Proofs.ClassFile.Addition
import Linkage.Proofs.Pool.Encoding

/-!
# Reading methods and bootstrap methods back

The layout of methods as a reader: a method is its flags, its name and its descriptor, and the number of its attributes in two bytes, then the
attributes; an attribute is its name and the number of its bytes in four bytes, then the bytes. A method is read back from its encoding when
neither number is cut off.

The table of bootstrap methods is their number in two bytes, then the entries; an entry is its handle and the number of its arguments in two
bytes, then the arguments.
-/

namespace Linkage

variable {α : Type}

/-- A word of four bytes. -/
def readDoubleWord : Reader UInt32 := do
  return word32 (← readByte) (← readByte) (← readByte) (← readByte)

/-- As many things in a row. -/
def readMany (reader : Reader α) : Nat → Reader (List α)
  | 0 => pure []
  | count + 1 => do return (← reader) :: (← readMany reader count)

def readAttribute : Reader Attribute := do
  let nameIndex ← readWord
  let size ← readDoubleWord
  return ⟨nameIndex, ← readBytes size.toNat⟩

def readMethod : Reader MethodEntry := do
  let access ← readWord
  let nameIndex ← readWord
  let descriptorIndex ← readWord
  let count ← readWord
  return ⟨⟨access⟩, nameIndex, descriptorIndex, ← readMany readAttribute count.toNat⟩

/-- The method of an encoding that holds a method and no more. -/
def MethodEntry.ofBytes? (bytes : List UInt8) : Option MethodEntry :=
  match readMethod bytes with
  | some (m, []) => some m
  | _ => none

/-- A double word is read back from its four bytes. -/
theorem reads_readDoubleWord (w : UInt32) : Reads readDoubleWord (be32 w) w := by
  intro rest
  change some (word32 (w >>> 24).toUInt8 (w >>> 16).toUInt8 (w >>> 8).toUInt8 w.toUInt8, rest) = _
  rw [word32_be32]

/-- Things that are read back one by one are read back in a row. -/
theorem reads_readMany {reader : Reader α} {encode : α → List UInt8} {as : List α} (h : ∀ a ∈ as, Reads reader (encode a) a) :
    Reads (readMany reader as.length) (as.flatMap encode) as := by
  induction as with
  | nil => exact reads_pure []
  | cons a as ih =>
    obtain ⟨ha, has⟩ := List.forall_mem_cons.mp h
    exact reads_pair _ ha (ih has)

/-- An attribute is read back, if its length fits into four bytes. -/
theorem reads_readAttribute {a : Attribute} (h : a.info.length < 4294967296) : Reads readAttribute a.toBytes a := by
  have hsize : a.info.length.toUInt32.toNat = a.info.length := UInt32.toNat_ofNat_of_lt' h
  rw [Attribute.toBytes, List.append_assoc]
  refine reads_bind (reads_readWord a.nameIndex) (reads_bind (reads_readDoubleWord _) ?_)
  rw [hsize]
  exact reads_map _ (reads_readBytes a.info)

/-- The numbers of attributes and of their bytes have room in the encoding. -/
structure MethodEntry.Fits (m : MethodEntry) : Prop where
  count : m.attributes.length < 65536
  sizes : ∀ a ∈ m.attributes, a.info.length < 4294967296

/-- A method is read back, if the numbers in it fit. -/
theorem reads_readMethod {m : MethodEntry} (h : m.Fits) : Reads readMethod m.toBytes m := by
  have hcount : m.attributes.length.toUInt16.toNat = m.attributes.length := UInt16.toNat_ofNat_of_lt' h.count
  have hattributes := reads_readMany fun a ha => reads_readAttribute (h.sizes a ha)
  simp only [MethodEntry.toBytes, List.append_assoc]
  refine reads_bind (reads_readWord m.access.bits) (reads_bind (reads_readWord m.nameIndex) ?_)
  refine reads_bind (reads_readWord m.descriptorIndex) (reads_bind (reads_readWord _) ?_)
  rw [hcount]
  exact reads_map _ hattributes

namespace MethodEntry

/-- A method is read back from its encoding, with no byte left. -/
theorem ofBytes?_toBytes {m : MethodEntry} (h : m.Fits) : ofBytes? m.toBytes = some m := by
  have hread := reads_readMethod h []
  rw [List.append_nil] at hread
  rw [ofBytes?, hread]

/-- A method with nothing but a body of a permitted size fits. -/
theorem Records.fits {p : Pool} {m : MethodEntry} {name descriptor : String} {body : MethodBody}
    (h : m.Records p name descriptor body) : m.Fits := by
  obtain ⟨index, hattributes, -⟩ := h.stored
  have hsize := h.size
  have hlength : body.toBytes.length = body.code.length + 12 := by
    simp only [MethodBody.toBytes, be16, be32, List.length_append, List.length_cons, List.length_nil]
    omega
  unfold CodeBuffer.maxSize at hsize
  constructor
  · rw [hattributes]
    exact Nat.succ_lt_succ (Nat.zero_lt_succ 65534)
  · rw [hattributes]
    intro a ha
    rw [List.mem_singleton.mp ha]
    change body.toBytes.length < 4294967296
    omega

end MethodEntry

/-! ## Bootstrap methods -/

def readBootstrap : Reader Bootstrap := do
  let methodRef ← readWord
  let count ← readWord
  return ⟨methodRef, ← readMany readWord count.toNat⟩

def readTable : Reader (List Bootstrap) := do
  let count ← readWord
  readMany readBootstrap count.toNat

/-- A bootstrap method is read back, if the number of its arguments fits into two bytes. -/
theorem reads_readBootstrap {b : Bootstrap} (h : b.arguments.length < 65536) : Reads readBootstrap b.toBytes b := by
  have hcount : b.arguments.length.toUInt16.toNat = b.arguments.length := UInt16.toNat_ofNat_of_lt' h
  rw [Bootstrap.toBytes, List.append_assoc]
  refine reads_bind (reads_readWord b.methodRef) (reads_bind (reads_readWord _) ?_)
  rw [hcount]
  exact reads_map _ (reads_readMany fun a _ => reads_readWord a)

/-- A table is read back from its encoding when no number in it is cut off. -/
theorem reads_readTable {table : List Bootstrap} (h : table.length < 65536) (hb : ∀ b ∈ table, b.arguments.length < 65536) :
    Reads readTable (Bootstrap.tableBytes table) table := by
  have hcount : table.length.toUInt16.toNat = table.length := UInt16.toNat_ofNat_of_lt' h
  refine reads_bind (reads_readWord _) ?_
  rw [hcount]
  exact reads_readMany fun b hmem => reads_readBootstrap (hb b hmem)

end Linkage
