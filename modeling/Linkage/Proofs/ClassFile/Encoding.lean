import Linkage.ClassFile.Attribute

/-!
# Reading encodings back

A word is read back from its bytes, and a body from the info of its attribute.
-/

namespace Linkage

/-- The value of a 16-bit word is that of its high byte, 256 times, and that of its low byte. -/
theorem toNat_word16 (high low : UInt8) : (word16 high low).toNat = high.toNat * 256 + low.toNat := by
  have hh := high.toNat_lt
  have hl := low.toNat_lt
  have hor := Nat.shiftLeft_add_eq_or_of_lt hl high.toNat
  have hshift : UInt16.toNat 8 % 16 = 8 := rfl
  simp only [word16, UInt16.toNat_or, UInt16.toNat_shiftLeft, UInt8.toNat_toUInt16, hshift]
  rw [Nat.mod_eq_of_lt (by simp only [Nat.shiftLeft_eq]; omega), ← hor, Nat.shiftLeft_eq]

/-- A 16-bit word is read back from its two bytes. -/
theorem word16_be16 (w : UInt16) : word16 (w >>> 8).toUInt8 w.toUInt8 = w := by
  apply UInt16.toNat_inj.mp
  have hw := w.toNat_lt
  have hshift : UInt16.toNat 8 % 16 = 8 := rfl
  simp only [toNat_word16, UInt16.toNat_toUInt8, UInt16.toNat_shiftRight, hshift, Nat.shiftRight_eq_div_pow]
  omega

/-- The value of a 32-bit word, byte by byte. -/
theorem toNat_word32 (b₃ b₂ b₁ b₀ : UInt8) :
    (word32 b₃ b₂ b₁ b₀).toNat = b₃.toNat * 16777216 + b₂.toNat * 65536 + b₁.toNat * 256 + b₀.toNat := by
  have h₃ := b₃.toNat_lt
  have h₂ := b₂.toNat_lt
  have h₁ := b₁.toNat_lt
  have h₀ := b₀.toNat_lt
  have s24 : UInt32.toNat 24 % 32 = 24 := rfl
  have s16 : UInt32.toNat 16 % 32 = 16 := rfl
  have s8 : UInt32.toNat 8 % 32 = 8 := rfl
  simp only [word32, UInt32.toNat_or, UInt32.toNat_shiftLeft, UInt8.toNat_toUInt32, s24, s16, s8, Nat.shiftLeft_eq, Nat.reducePow]
  rw [Nat.mod_eq_of_lt (by omega), Nat.mod_eq_of_lt (by omega), Nat.mod_eq_of_lt (by omega)]
  -- the bytes fill disjoint ranges of bits, so `|||` adds their values
  have e₂ := Nat.two_pow_add_eq_or_of_lt (i := 24) (b := b₂.toNat * 65536) (by omega) b₃.toNat
  have e₁ := Nat.two_pow_add_eq_or_of_lt (i := 16) (b := b₁.toNat * 256) (by omega) (b₃.toNat * 256 + b₂.toNat)
  have e₀ := Nat.two_pow_add_eq_or_of_lt (i := 8) (b := b₀.toNat) h₀ (b₃.toNat * 65536 + b₂.toNat * 256 + b₁.toNat)
  simp only [Nat.reducePow] at e₂ e₁ e₀
  rw [Nat.mul_comm b₃.toNat 16777216, ← e₂,
    show 16777216 * b₃.toNat + b₂.toNat * 65536 = 65536 * (b₃.toNat * 256 + b₂.toNat) by omega, ← e₁,
    show 65536 * (b₃.toNat * 256 + b₂.toNat) + b₁.toNat * 256 = 256 * (b₃.toNat * 65536 + b₂.toNat * 256 + b₁.toNat) by omega, ← e₀]

/-- A 32-bit word is read back from its four bytes. -/
theorem word32_be32 (w : UInt32) :
    word32 (w >>> 24).toUInt8 (w >>> 16).toUInt8 (w >>> 8).toUInt8 w.toUInt8 = w := by
  apply UInt32.toNat_inj.mp
  have hw := w.toNat_lt
  have s24 : UInt32.toNat 24 % 32 = 24 := rfl
  have s16 : UInt32.toNat 16 % 32 = 16 := rfl
  have s8 : UInt32.toNat 8 % 32 = 8 := rfl
  simp only [toNat_word32, UInt32.toNat_toUInt8, UInt32.toNat_shiftRight, s24, s16, s8, Nat.shiftRight_eq_div_pow]
  omega

namespace MethodBody

/-- A body within the size limit is read back from its encoding. -/
theorem ofBytes?_toBytes (m : MethodBody) (h : m.code.length ≤ CodeBuffer.maxSize) : ofBytes? m.toBytes = some m := by
  have hsize : m.code.length.toUInt32.toNat = m.code.length := by
    rw [Nat.toUInt32_eq, UInt32.toNat_ofNat']
    exact Nat.mod_eq_of_lt (by unfold CodeBuffer.maxSize at h; omega)
  simp only [toBytes, be16, be32, List.cons_append, List.nil_append, ofBytes?, word16_be16, word32_be32, hsize]
  simp

end MethodBody

end Linkage
