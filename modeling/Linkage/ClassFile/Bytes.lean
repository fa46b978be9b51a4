/-!
# Bytes and words

The byte order of class files, of each word the most significant byte first, and bytes as hexadecimal text.
-/

namespace Linkage

/-- The two bytes of a 16-bit word. -/
def be16 (w : UInt16) : List UInt8 :=
  [(w >>> 8).toUInt8, w.toUInt8]

/-- The four bytes of a 32-bit word. -/
def be32 (w : UInt32) : List UInt8 :=
  [(w >>> 24).toUInt8, (w >>> 16).toUInt8, (w >>> 8).toUInt8, w.toUInt8]

/-- The 16-bit word of two bytes. -/
def word16 (high low : UInt8) : UInt16 :=
  high.toUInt16 <<< 8 ||| low.toUInt16

/-- The 32-bit word of four bytes. -/
def word32 (b₃ b₂ b₁ b₀ : UInt8) : UInt32 :=
  b₃.toUInt32 <<< 24 ||| b₂.toUInt32 <<< 16 ||| b₁.toUInt32 <<< 8 ||| b₀.toUInt32

/-- The bytes of a text in UTF-8. -/
def utf8Bytes (text : String) : List UInt8 :=
  text.toUTF8.data.toList

/-- The hexadecimal digits in order of their values. -/
def hexAlphabet : List Char :=
  ['0', '1', '2', '3', '4', '5', '6', '7', '8', '9', 'a', 'b', 'c', 'd', 'e', 'f']

/-- The digit of a value below sixteen. -/
def hexDigit (n : Nat) : Char :=
  hexAlphabet.getD n '0'

/-- The value of a digit. -/
def hexValue? (c : Char) : Option Nat :=
  hexAlphabet.idxOf? c

/-- Bytes as hexadecimal text, two digits each. -/
def hexText (bytes : List UInt8) : String :=
  String.ofList (bytes.flatMap fun b => [hexDigit (b.toNat / 16), hexDigit (b.toNat % 16)])

/-- The bytes that a list of hexadecimal digits stands for, if it does. -/
def bytesOfHex? : List Char → Option (List UInt8)
  | [] => some []
  | [_] => none
  | high :: low :: rest => do
    return (16 * (← hexValue? high) + (← hexValue? low)).toUInt8 :: (← bytesOfHex? rest)

end Linkage
