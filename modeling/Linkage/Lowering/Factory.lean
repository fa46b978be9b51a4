import Linkage.Emission.Conversion
import Linkage.Lowering.Context

/-!
# Factories

A reference to a constructor has no method of its own to link to. It gets a private static one, the factory, which takes the exact
parameters and makes the object or the array.
-/

namespace Linkage

open Emit

namespace Factory

/-- The flags of a factory. Interface methods may not be final. -/
def access (inInterface : Bool) : Access :=
  let flags := Access.accPrivate ||| Access.accStatic ||| Access.accFinal ||| Access.accSynthetic
  if inInterface then flags.without .accFinal else flags

/-- Whether a value of the type, unboxed if need be, can be an array size. -/
def isSizeType (t : JType) : Bool :=
  (t.primitive? <|> t.unboxed?).any fun p => p.computesAsInt && p ≠ .boolean

/-- Pushes array sizes from the locals, beginning at a slot. -/
def pushSizes (span : Span) : Nat → List Param → Emit Unit
  | _, [] => pure ()
  | slot, p :: ps => do
    if !isSizeType p.type then throw (.shape (.sizeType p.type) span)
    inCode (CodeBuffer.load p.type slot)
    convert p.type .int
    pushSizes span (slot + p.type.width) ps

/-- Checks that sizes can be given for an array type: at least one, at most as many as it has dimensions. -/
def checkSizes (type : JType) (count : Nat) : Except ShapeFault Unit :=
  if count = 0 then .error (.missingSize type)
  else if maxSizes < count then .error (.tooManySizes count)
  else if type.dimensions < count then .error (.moreSizesThanDimensions count type)
  else .ok ()

/-- Writes the instruction that makes an array with the sizes on the stack. -/
def allocate (type : JType) (count : Nat) : Emit Unit := do
  match type.component?, count with
  | some (.prim p), 1 => write (·.emitOp1 Opcode.newarray (Opcode.elementCode p))
  | some c, 1 =>
    let index ← inPool (Pool.addClass c.constantName)
    write (·.emitOp2 Opcode.anewarray index)
  | _, _ =>
    let index ← inPool (Pool.addClass type.constantName)
    write fun b => (b.emitOp2 Opcode.multianewarray index).emitByte count.toUInt8
  inCode (CodeBuffer.pop count)
  write (·.push (.object type.constantName))

/-- Writes the code that makes an array whose sizes are the parameters. -/
def makeArray (type : JType) (exact : List Param) (span : Span) : Emit Unit := do
  answer ((checkSizes type exact.length).mapError fun what => .shape what span)
  pushSizes span 0 exact
  allocate type exact.length

/-- Pushes constructor arguments from the locals, beginning at a slot, each converted to the parameter it is passed for. -/
def pushArguments : Nat → List Param → List Param → Emit Unit
  | slot, arg :: args, param :: params => do
    inCode (CodeBuffer.load arg.type slot)
    convert arg.type param.type
    pushArguments (slot + arg.type.width) args params
  | _, _, _ => pure ()

/-- The constructor that a creation calls. An abstract class or interface has no objects of its own. -/
def constructorOf (s : Scope) (type : JType) (className : String) (exact : List Param) (span : Span) : Except Fault MethodDecl :=
  if (s.classes.underlying? className).any fun decl => decl.isInterface || decl.isAbstract then
    .error (.shape (.abstractType type) span)
  else s.constructorFor className exact span

/-- Writes the code that makes an object with a constructor. -/
def construct (className : String) (constructor : MethodDecl) (exact : List Param) : Emit Unit := do
  let classIndex ← inPool (Pool.addClass className)
  write fun b => (b.emitOp2 Opcode.new classIndex).push (.object className)
  write fun b => (b.emitOp Opcode.dup).push (.object className)
  pushArguments 0 exact constructor.params
  let index ← inPool (Pool.addMember .method className WellKnown.constructor constructor.descriptor)
  inCode (CodeBuffer.invoke Opcode.invokespecial index constructor.paramTypes .void)

/-- Writes the code that makes an object of a class or an array. -/
def make (s : Scope) (type : JType) (exact : List Param) (span : Span) : Emit Unit := do
  match type with
  | .array _ => makeArray type exact span
  | .named _ className =>
    let constructor ← answer (constructorOf s type className exact span)
    construct (s.classes.canonicalName className) constructor exact
  | .prim _ => throw (.shape (.notCreatable type) span)
  | .void => throw (.shape (.notCreatable type) span)

/-- Writes the body of a factory. -/
def body (s : Scope) (type : JType) (exact : List Param) (span : Span) : Emit Unit := do
  inCode (CodeBuffer.ensureLocals (CodeBuffer.slots (exact.map (·.type))))
  make s type exact span
  inCode (CodeBuffer.emitReturn type)

/-- Checks that the enclosing type is known and has no such method. -/
def checkEnclosing (classes : ClassTable) (enclosing name descriptor : String) : Except Defect Unit :=
  match classes.get? enclosing with
  | none => .error (.unregistered enclosing)
  | some decl => if decl.declares name descriptor then .error (.alreadyDeclared enclosing name descriptor) else .ok ()

/-- The fault when a factory cannot be added to the class file. A method that is there already is a defect. -/
def installFault (enclosing : String) (span : Span) : FileFault → Fault
  | .duplicateMethod name descriptor => .defect (.alreadyDeclared enclosing name descriptor) (some span)
  | fault => .file fault

/-- Takes the next name for a member made in a method. -/
def takeName (method : Option String) : Lower String := fun w =>
  let (name, names) := w.names.next method
  .ok name { w with names := names }

/-- Adds a factory with its code to the class file and to the enclosing type. -/
def install (factory : MethodDecl) (code : CodeBuffer) (span : Span) : Lower Unit := do
  let enclosing := factory.declaring
  answer ((checkEnclosing (← get).classes enclosing factory.name factory.descriptor).mapError fun what => .defect what (some span))
  Lower.inFile (ClassFile.addMethod factory.access factory.name factory.descriptor code) (installFault enclosing span)
  modify fun w => { w with classes := (w.classes.addMethod? enclosing factory).getD w.classes }

/-- Makes the factory for a target type and installs it. Its name is taken once its code is written, so a fault after that leaves a
number out. -/
def create (ctx : Context) (target : JType) (exact : List Param) (span : Span) : Lower MethodDecl := do
  let w ← get
  let type := w.classes.canonicalType target
  let code ← Lower.assemble ctx.settings.tracing (body (w.scope ctx.policy) type exact span)
  let name ← takeName ctx.method
  let factory : MethodDecl :=
    { name := name, params := exact, result := type, access := access w.file.isInterface, declaring := w.names.owner }
  install factory code span
  return factory

end Factory

end Linkage
