import Linkage.ClassFile.Basic
import Linkage.ClassFile.PoolBuilder

/-!
# Building class files

A class file is put together step by step: its name and superclass, then
interfaces, fields and methods, each of which asks the pool builder for its
constants. `ClassSpec` describes a whole class by names, and `ClassSpec.build`
makes it in the order of its parts. Depths of stacks and numbers of local
variables are not computed.
-/

set_option autoImplicit false

namespace Linkage

/-! ## Steps -/

/-- Class file in the making. -/
structure ClassBuilder where
  constants : PoolBuilder
  flags : ClassFlags
  thisClass : PoolIndex
  superClass : Option PoolIndex
  interfaces : Array PoolIndex
  fields : Array Field
  methods : Array Method

/-- Steps of making a class file. -/
abbrev ClassM (α : Type) : Type := ExceptT ClassError (StateM ClassBuilder) α

namespace ClassBuilder

/-- Builder of a class with the given name and superclass. -/
def start (flags : ClassFlags) (name : BinaryName) (superName : Option BinaryName) :
    Except ClassError ClassBuilder :=
  let requests : PoolM (PoolIndex × Option PoolIndex) := do
    let thisClass ← PoolBuilder.classInfo name.text
    match superName with
    | none => return (thisClass, none)
    | some superName => return (thisClass, some (← PoolBuilder.classInfo superName.text))
  match requests.run PoolBuilder.empty with
  | (.error e, _) => .error e
  | (.ok (thisClass, superClass), constants) =>
      .ok ⟨constants, flags, thisClass, superClass, #[], #[], #[]⟩

/-- A request for constants as a step. -/
def ask {α : Type} (request : PoolM α) : ClassM α := fun b =>
  match b with
  | ⟨constants, flags, thisClass, superClass, interfaces, fields, methods⟩ =>
      let answer := request.run constants
      (answer.1, ⟨answer.2, flags, thisClass, superClass, interfaces, fields, methods⟩)

/-- Adds an interface. -/
def addInterface (name : String) : ClassM Unit := do
  let i ← ask (PoolBuilder.classInfo name)
  modify fun b => { b with interfaces := b.interfaces.push i }

/-- Adds a field. -/
def addField (flags : FieldFlags) (name descriptor : String) : ClassM Unit := do
  let name ← ask (PoolBuilder.utf8 name)
  let descriptor ← ask (PoolBuilder.utf8 descriptor)
  modify fun b => { b with fields := b.fields.push ⟨flags, name, descriptor, []⟩ }

/-- Adds a method with the given attributes. -/
def addMethodWith (flags : MethodFlags) (name descriptor : String)
    (attributes : List Attribute) : ClassM Unit := do
  let name ← ask (PoolBuilder.utf8 name)
  let descriptor ← ask (PoolBuilder.utf8 descriptor)
  modify fun b => { b with methods := b.methods.push ⟨flags, name, descriptor, attributes⟩ }

/-- Adds a method without a body. -/
def addAbstractMethod (flags : MethodFlags) (name descriptor : String) : ClassM Unit :=
  addMethodWith flags name descriptor []

/-- Depth of the stack and number of local variables of every body. -/
def frameSize : UInt16 := 16

/-- Adds a method with a body. -/
def addMethod (flags : MethodFlags) (name descriptor : String)
    (instructions : List Instruction) (handlers : List Handler) : ClassM Unit := do
  let body : MethodBody :=
    ⟨frameSize, frameSize, Instruction.assemble instructions, handlers, []⟩
  let attributeName ← ask (PoolBuilder.utf8 MethodBody.attributeName)
  addMethodWith flags name descriptor [⟨attributeName, body.write⟩]

/-- Version of the class files that are made. -/
def majorVersion : UInt16 := 52

/-- The class file. -/
def result (b : ClassBuilder) : ClassFile :=
  { minorVersion := 0
    majorVersion := majorVersion
    pool := b.constants.pool
    flags := b.flags
    thisClass := b.thisClass
    superClass := b.superClass
    interfaces := b.interfaces.toList
    fields := b.fields.toList
    methods := b.methods.toList
    attributes := [] }

end ClassBuilder

/-! ## Classes by names -/

/-- Kinds of access to a field. -/
inductive FieldAccess where
  | getStatic
  | putStatic
  | getField
  | putField
  deriving DecidableEq, Repr

/-- Kinds of use of a class in an instruction. -/
inductive ClassUse where
  | newObject
  | newArray
  | checkCast
  | instanceOf
  | newMultiArray (dimensions : UInt8)
  | load
  deriving DecidableEq, Repr

/-- Instruction whose constants are given by their contents. -/
inductive CodeSpec where
  | field (access : FieldAccess) (owner name descriptor : String)
  | method (kind : InvokeKind) (owner name descriptor : String) (isInterface : Bool)
  | callSite (name descriptor : String)
  | classUse (use : ClassUse) (name : String)
  | string (text : String)
  | integer (value : Int32)
  | long (value : Int64)
  | plain (instruction : Instruction)
  deriving DecidableEq, Repr

/-- Instruction that accesses the field at an index. -/
def FieldAccess.instruction : FieldAccess → PoolIndex → Instruction
  | .getStatic => .getStatic
  | .putStatic => .putStatic
  | .getField => .getField
  | .putField => .putField

/-- Instruction that uses the class at an index. -/
def ClassUse.instruction : ClassUse → PoolIndex → Instruction
  | .newObject => .newObject
  | .newArray => .newArray
  | .checkCast => .checkCast
  | .instanceOf => .instanceOf
  | .newMultiArray dimensions => fun index => .newMultiArray index dimensions
  | .load => .load

/-- Instruction with its constants in the pool. -/
def CodeSpec.instruction : CodeSpec → PoolM Instruction
  | .field access owner name descriptor => do
      return access.instruction (← PoolBuilder.fieldRef owner name descriptor)
  | .method kind owner name descriptor isInterface => do
      return .invoke kind (← PoolBuilder.methodRef owner name descriptor isInterface)
  | .callSite name descriptor => do
      return .invokeDynamic (← PoolBuilder.nameAndType name descriptor)
  | .classUse use name => do return use.instruction (← PoolBuilder.classInfo name)
  | .string text => do return .load (← PoolBuilder.string text)
  | .integer value => do return .load (← PoolBuilder.integer value)
  | .long value => do return .loadWide (← PoolBuilder.long value)
  | .plain instruction => return instruction

/-- Handler whose class is given by name. -/
structure HandlerSpec where
  start : UInt16
  stop : UInt16
  target : UInt16
  catchName : Option String
  deriving DecidableEq, Repr

/-- Handler with its class in the pool. -/
def HandlerSpec.handler (h : HandlerSpec) : PoolM Handler := do
  match h.catchName with
  | none => return ⟨h.start, h.stop, h.target, none⟩
  | some name => return ⟨h.start, h.stop, h.target, some (← PoolBuilder.classInfo name)⟩

/-- Body of a method with constants given by their contents. -/
structure BodySpec where
  code : List CodeSpec
  handlers : List HandlerSpec
  deriving DecidableEq, Repr

/-- Field of a class to be made. -/
structure FieldSpec where
  flags : FieldFlags
  name : String
  descriptor : String
  deriving DecidableEq

/-- Method of a class to be made, which may have no body. -/
structure MethodSpec where
  flags : MethodFlags
  name : String
  descriptor : String
  body : Option BodySpec
  deriving DecidableEq

/-- Class to be made. -/
structure ClassSpec where
  flags : ClassFlags
  name : BinaryName
  superName : Option BinaryName
  interfaces : List String
  fields : List FieldSpec
  methods : List MethodSpec
  deriving DecidableEq

namespace ClassSpec

/-- Adds a method of a class to be made: the constants of its code come first,
then the ones of its handlers. -/
def addMethod (m : MethodSpec) : ClassM Unit := do
  match m.body with
  | none => ClassBuilder.addAbstractMethod m.flags m.name m.descriptor
  | some body =>
      let instructions ← ClassBuilder.ask (body.code.mapM CodeSpec.instruction)
      let handlers ← ClassBuilder.ask (body.handlers.mapM HandlerSpec.handler)
      ClassBuilder.addMethod m.flags m.name m.descriptor instructions handlers

/-- Adds everything but the name and the superclass. -/
def addParts (c : ClassSpec) : ClassM Unit := do
  c.interfaces.forM ClassBuilder.addInterface
  c.fields.forM fun f => ClassBuilder.addField f.flags f.name f.descriptor
  c.methods.forM addMethod

/-- Makes the class. -/
def build (c : ClassSpec) : Except ClassError ClassFile := do
  let builder ← ClassBuilder.start c.flags c.name c.superName
  match c.addParts.run builder with
  | (.ok _, builder) => return builder.result
  | (.error e, _) => throw e

end ClassSpec

end Linkage
