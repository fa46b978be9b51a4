import Linkage.ClassFile.Fault
import Linkage.JType
import Linkage.Settings
import Linkage.Source

/-!
# Faults of lowering

Why a reference cannot be lowered. A fault of the program being compiled carries the place it is reported at; a defect means that
the stages before this one disagree.
-/

namespace Linkage

/-- What is wrong with the form of a reference. -/
inductive ShapeFault where
  | noMembers (type : JType)
  | creationOfValue
  | notCreatable (type : JType)
  | abstractType (type : JType)
  | missingSize (type : JType)
  | tooManySizes (count : Nat)
  | moreSizesThanDimensions (count : Nat) (type : JType)
  | sizeType (type : JType)
  | stated (text : String)
  deriving DecidableEq

/-- The number of array sizes that one instruction can take. -/
def maxSizes : Nat :=
  255

def ShapeFault.message : ShapeFault → String
  | noMembers t => "cannot reference a method of type " ++ t.render
  | creationOfValue => "constructor reference must be `Type::new`"
  | notCreatable t => "cannot create an instance of " ++ t.render
  | abstractType t => "cannot instantiate abstract type " ++ t.render
  | missingSize t => t.render ++ "::new needs at least one dimension size"
  | tooManySizes count => s!"{count} dimension sizes exceed the class file limit of {maxSizes}"
  | moreSizesThanDimensions count t =>
    s!"{count} dimension sizes given for {t.render} which has {t.dimensions} dimensions"
  | sizeType t => "array size must be an integral type, found " ++ t.render
  | stated text => text

/-- A disagreement between stages. -/
inductive Defect where
  | inferredCount (inferred : Nat) (interface : JType) (method : String) (declared : Nat)
  | foreignContext (contextClass fileClass : String)
  | unregistered (className : String)
  | alreadyDeclared (className method descriptor : String)
  | noUnboxing (source target : JType)
  | noWidening (source target : Primitive)
  | stated (text : String)
  deriving DecidableEq

def Defect.message : Defect → String
  | inferredCount inferred interface method declared =>
    s!"{inferred} inferred parameter types for {interface.render}.{method} which takes {declared}"
  | foreignContext contextClass fileClass => s!"method context for {contextClass} used with class file {fileClass}"
  | unregistered className => s!"enclosing type {className} is not registered"
  | alreadyDeclared className method descriptor => s!"{className} already declares {method}{descriptor}"
  | noUnboxing source target => s!"cannot unbox {source.render} to {target.render}"
  | noWidening source target => s!"no widening from {source.name} to {target.name}"
  | stated text => text

/-- Why a reference cannot be lowered. -/
inductive Fault where
  | unresolved (member : String) (params : List JType) (target : JType) (span : Span)
  | shape (what : ShapeFault) (span : Span)
  | receiverType (receiver target : JType) (span : Span)
  | inferredType (inferred declared : JType) (span : Span)
  | notFunctional (type : JType) (span : Span)
  | file (fault : FileFault)
  | settings (fault : SettingsFault)
  | defect (what : Defect) (span : Option Span)
  deriving DecidableEq

namespace Fault

/-- A fault of the constant pool. -/
def ofPool (fault : PoolFault) : Fault :=
  file (.pool fault)

/-- A fault of a code buffer. -/
def ofCode (fault : CodeFault) : Fault :=
  file (.code fault)

/-- The types of a parameter list as a message shows them. -/
def typeNames (types : List JType) : String :=
  String.intercalate "," (types.map JType.render)

def message : Fault → String
  | unresolved member params target span =>
    s!"{span.render}: failed to find the expected method [{member}({typeNames params})] in the type [{target.render}]"
  | shape what span => s!"{span.render}: {what.message}"
  | receiverType receiver target span =>
    s!"{span.render}: invalid receiver type: {receiver.render} is not compatible with {target.render}"
  | inferredType inferred declared span =>
    s!"{span.render}: the inferred type [{inferred.render}] is not compatible with the parameter type [{declared.render}]"
  | notFunctional type span => s!"{span.render}: [{type.render}] is not a functional interface"
  | file fault => "Code generation error: " ++ fault.message
  | settings fault => "Configuration error: " ++ fault.message
  | defect what none => "Internal compiler error: " ++ what.message
  | defect what (some span) => s!"{span.render}: Internal compiler error: {what.message}"

/-- The place that a fault is reported at, if it has one. -/
def span? : Fault → Option Span
  | unresolved _ _ _ span => some span
  | shape _ span => some span
  | receiverType _ _ span => some span
  | inferredType _ _ span => some span
  | notFunctional _ span => some span
  | file _ => none
  | settings _ => none
  | defect _ span => span

/-- Whether the fault is a defect and not one of the program being compiled. -/
def isDefect : Fault → Bool
  | defect _ _ => true
  | _ => false

end Fault

end Linkage
