/-!
# Access flags

The flag words of types and members, and the visibility that a member's flags declare.
-/

namespace Linkage

/-- The access flags of a type or member, one bit each. -/
structure Access where
  bits : UInt16
  deriving DecidableEq

namespace Access

def accPublic : Access :=
  ⟨0x0001⟩

def accPrivate : Access :=
  ⟨0x0002⟩

def accProtected : Access :=
  ⟨0x0004⟩

def accStatic : Access :=
  ⟨0x0008⟩

def accFinal : Access :=
  ⟨0x0010⟩

def accInterface : Access :=
  ⟨0x0200⟩

def accAbstract : Access :=
  ⟨0x0400⟩

def accSynthetic : Access :=
  ⟨0x1000⟩

/-- The flags of either word. -/
instance : OrOp Access where
  or a b := ⟨a.bits ||| b.bits⟩

/-- Whether the two words share a flag. -/
def meets (a b : Access) : Bool :=
  a.bits &&& b.bits != 0

/-- The flags of the first word that the second lacks. -/
def without (a b : Access) : Access :=
  ⟨a.bits &&& ~~~b.bits⟩

def isPublic (a : Access) : Bool :=
  a.meets accPublic

def isPrivate (a : Access) : Bool :=
  a.meets accPrivate

def isProtected (a : Access) : Bool :=
  a.meets accProtected

def isStatic (a : Access) : Bool :=
  a.meets accStatic

def isInterface (a : Access) : Bool :=
  a.meets accInterface

def isAbstract (a : Access) : Bool :=
  a.meets accAbstract

end Access

/-- From where a member may be used: the nest of its class, the package, the package and all subclasses, or everywhere. -/
inductive Visibility where
  | nest
  | package
  | subclasses
  | everywhere
  deriving DecidableEq

/-- The word for a visibility. -/
def Visibility.name : Visibility → String
  | nest => "private"
  | package => "package"
  | subclasses => "protected"
  | everywhere => "public"

/-- The visibility that access flags declare; of several flags the widest visibility counts. -/
def Access.visibility (a : Access) : Visibility :=
  if a.isPublic then .everywhere
  else if a.isProtected then .subclasses
  else if a.isPrivate then .nest
  else .package

end Linkage
