import Linkage.ClassFile.Bytes

/-!
# Constants

The entries of a constant pool and their encoding. An entry names other entries by their index.
-/

namespace Linkage

/-- What kind of member a reference names. -/
inductive MemberKind where
  | field
  | method
  | interfaceMethod
  deriving DecidableEq

/-- The kind of a method reference whose owner is, or is not, an interface. -/
def MemberKind.ofMethod (onInterface : Bool) : MemberKind :=
  if onInterface then .interfaceMethod else .method

/-- An entry of a constant pool. -/
inductive Constant where
  | utf8 (text : String)
  | integer (value : Int32)
  | classRef (nameIndex : UInt16)
  | string (textIndex : UInt16)
  | member (kind : MemberKind) (classIndex nameAndTypeIndex : UInt16)
  | nameAndType (nameIndex descriptorIndex : UInt16)
  | methodHandle (kind : UInt8) (memberIndex : UInt16)
  | methodType (descriptorIndex : UInt16)
  | invokeDynamic (bootstrapIndex nameAndTypeIndex : UInt16)
  deriving DecidableEq

namespace Constant

/-- The byte that opens the encoding of a member reference. -/
def memberTag : MemberKind → UInt8
  | .field => 9
  | .method => 10
  | .interfaceMethod => 11

/-- The encoding of an entry: a tag, then its fields. The length of a text is written in two bytes and wraps beyond them. -/
def toBytes : Constant → List UInt8
  | utf8 text => 1 :: (be16 (utf8Bytes text).length.toUInt16 ++ utf8Bytes text)
  | integer value => 3 :: be32 value.toUInt32
  | classRef name => 7 :: be16 name
  | string text => 8 :: be16 text
  | member kind owner signature => memberTag kind :: (be16 owner ++ be16 signature)
  | nameAndType name descriptor => 12 :: (be16 name ++ be16 descriptor)
  | methodHandle kind reference => 15 :: kind :: be16 reference
  | methodType descriptor => 16 :: be16 descriptor
  | invokeDynamic bootstrap signature => 18 :: (be16 bootstrap ++ be16 signature)

end Constant

end Linkage
