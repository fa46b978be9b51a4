import Linkage.ClassFile.CodeBuffer

/-!
# Types as plain text

A line of text for every type, from which the type can be read back: a bracket for each array level, then the keyword of a primitive
type, `void`, or a name behind `c:` or `i:` for its kind. Stack entries have a text of the same sort.
-/

namespace Linkage

namespace JType

/-- The text of a type. -/
def toText : JType → String
  | prim p => p.name
  | named .ofClass n => "c:" ++ n
  | named .ofInterface n => "i:" ++ n
  | array c => "[" ++ c.toText
  | void => "void"

/-- The type that a text stands for. What follows the mark of a kind is the name, whatever it holds. -/
def ofText? : List Char → Option JType
  | '[' :: rest => array <$> ofText? rest
  | 'c' :: ':' :: rest => some (.ofClass (String.ofList rest))
  | 'i' :: ':' :: rest => some (.ofInterface (String.ofList rest))
  | word => if word = "void".toList then some void else prim <$> Primitive.ofName? (String.ofList word)

/-- A type is read back from its text. -/
theorem ofText?_toText (t : JType) : ofText? t.toText.toList = some t := by
  induction t with
  | prim p => cases p <;> decide
  | named k n => cases k <;> simp [toText, ofText?, ofClass, ofInterface]
  | array c ih => simp [toText, ofText?, ih]
  | void => decide

end JType

namespace StackType

/-- The text of a stack entry. -/
def toText : StackType → String
  | int => "int"
  | float => "float"
  | long => "long"
  | double => "double"
  | null => "null"
  | object n => "obj:" ++ n

/-- The stack entry that a text stands for. -/
def ofText? : List Char → Option StackType
  | 'o' :: 'b' :: 'j' :: ':' :: rest => some (object (String.ofList rest))
  | word => [int, float, long, double, null].find? fun t => t.toText.toList = word

/-- A stack entry is read back from its text. -/
theorem ofText?_toText (t : StackType) : ofText? t.toText.toList = some t := by
  cases t with
  | object n => simp [toText, ofText?]
  | _ => decide

end StackType

end Linkage
