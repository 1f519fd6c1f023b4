import Linkage.Access
import Linkage.ClassFile.Instruction
import Linkage.ClassFile.Pool

/-!
# Class files

Class files with their members, attributes and bodies of methods, and their
readers and writers. Bytes after the last attribute are ignored by the reader.
Attributes are kept as bytes; the code of a method is decoded on demand.
-/

set_option autoImplicit false

namespace Linkage

/-! ## Parts -/

/-- Attribute of a class, a member or a body, with its undecoded contents. -/
structure Attribute where
  name : PoolIndex
  info : List UInt8
  deriving DecidableEq, Repr

/-- Field or method that a class declares, with its flags among those of a mask. -/
structure Member (mask : UInt16) where
  flags : FlagSet mask
  name : PoolIndex
  descriptor : PoolIndex
  attributes : List Attribute
  deriving DecidableEq

/-- Fields that a class declares. -/
abbrev Field : Type := Member 0x50df

/-- Methods that a class declares. -/
abbrev Method : Type := Member 0x1dff

/-- Range of code whose exceptions are handled at a target: the exceptions of a
class, or all of them. -/
structure Handler where
  start : UInt16
  stop : UInt16
  target : UInt16
  catchType : Option PoolIndex
  deriving DecidableEq, Repr

/-- Body of a method. -/
structure MethodBody where
  maxStack : UInt16
  maxLocals : UInt16
  code : List UInt8
  handlers : List Handler
  attributes : List Attribute
  deriving DecidableEq, Repr

/-- Class file. A class without a superclass is the root of the hierarchy. -/
structure ClassFile where
  minorVersion : UInt16
  majorVersion : UInt16
  pool : ConstantPool
  flags : ClassFlags
  thisClass : PoolIndex
  superClass : Option PoolIndex
  interfaces : List PoolIndex
  fields : List Field
  methods : List Method
  attributes : List Attribute

/-! ## Readers and writers -/

section Codec

open ClassReader

/-- Reads an attribute. -/
def Attribute.read : ClassReader Attribute := do
  let name ← u16
  return ⟨name, ← take (← u32).toNat⟩

/-- Bytes of an attribute. Of its length only the low 32 bits are kept. -/
def Attribute.write (a : Attribute) : List UInt8 :=
  ClassWriter.u16 a.name ++ bigEndian 4 a.info.length ++ a.info

/-- Reads a field or a method. -/
def Member.read {mask : UInt16} : ClassReader (Member mask) := do
  let flags ← u16
  let name ← u16
  let descriptor ← u16
  return ⟨.ofBits flags, name, descriptor, ← list Attribute.read⟩

/-- Bytes of a field or a method. -/
def Member.write {mask : UInt16} (m : Member mask) : List UInt8 :=
  ClassWriter.u16 m.flags.bits ++ ClassWriter.u16 m.name ++ ClassWriter.u16 m.descriptor ++
    ClassWriter.list Attribute.write m.attributes

/-- Reads a handler. -/
def Handler.read : ClassReader Handler := do
  return ⟨← u16, ← u16, ← u16, ← optionalIndex⟩

/-- Bytes of a handler. -/
def Handler.write (h : Handler) : List UInt8 :=
  ClassWriter.u16 h.start ++ ClassWriter.u16 h.stop ++ ClassWriter.u16 h.target ++
    ClassWriter.optionalIndex h.catchType

/-- Reads the body of a method. -/
def MethodBody.read : ClassReader MethodBody := do
  let maxStack ← u16
  let maxLocals ← u16
  let code ← take (← u32).toNat
  return ⟨maxStack, maxLocals, code, ← list Handler.read, ← list Attribute.read⟩

/-- Bytes of the body of a method. Of the length of its code only the low 32 bits
are kept. -/
def MethodBody.write (b : MethodBody) : List UInt8 :=
  ClassWriter.u16 b.maxStack ++ ClassWriter.u16 b.maxLocals ++ bigEndian 4 b.code.length ++
    b.code ++ ClassWriter.list Handler.write b.handlers ++
    ClassWriter.list Attribute.write b.attributes

/-- Body of a method of the contents of its attribute. Bytes after it are ignored. -/
def MethodBody.ofInfo (info : List UInt8) : Except ClassError MethodBody :=
  Prod.fst <$> MethodBody.read info

namespace ClassFile

/-- First bytes of every class file. -/
def magic : List UInt8 := [0xca, 0xfe, 0xba, 0xbe]

/-- Reads a class file. -/
def read : ClassReader ClassFile := do
  let start ← take 4
  if start ≠ magic then throw (.badMagic start)
  let minorVersion ← u16
  let majorVersion ← u16
  let pool ← ConstantPool.read
  let flags ← u16
  let thisClass ← u16
  let superClass ← optionalIndex
  let interfaces ← list u16
  let fields ← list Member.read
  let methods ← list Member.read
  let attributes ← list Attribute.read
  return ⟨minorVersion, majorVersion, pool, .ofBits flags, thisClass, superClass, interfaces,
    fields, methods, attributes⟩

/-- Class file of a list of bytes. -/
def parse (bytes : List UInt8) : Except ClassError ClassFile := Prod.fst <$> read bytes

/-- Bytes of a class file. -/
def toBytes (c : ClassFile) : List UInt8 :=
  magic ++ ClassWriter.u16 c.minorVersion ++ ClassWriter.u16 c.majorVersion ++ c.pool.write ++
    ClassWriter.u16 c.flags.bits ++ ClassWriter.u16 c.thisClass ++
    ClassWriter.optionalIndex c.superClass ++ ClassWriter.list ClassWriter.u16 c.interfaces ++
    ClassWriter.list Member.write c.fields ++ ClassWriter.list Member.write c.methods ++
    ClassWriter.list Attribute.write c.attributes

end ClassFile

end Codec

/-! ## Names and bodies -/

namespace ClassFile

/-- Name of the class. -/
def thisName (c : ClassFile) : Except ClassError String := c.pool.className c.thisClass

/-- Name of the superclass, if there is one. -/
def superName (c : ClassFile) : Except ClassError (Option String) :=
  match c.superClass with
  | none => .ok none
  | some index => some <$> c.pool.className index

/-- Names of the interfaces. -/
def interfaceNames (c : ClassFile) : Except ClassError (List String) :=
  c.interfaces.mapM c.pool.className

/-- Whether the class is an interface. -/
def isInterface (c : ClassFile) : Bool := c.flags.isInterface

end ClassFile

/-- Name of the attribute that holds the body of a method. -/
def MethodBody.attributeName : String := "Code"

/-- Body among the attributes of a method: the first one of its name. The names of
the attributes before it have to be texts. -/
def MethodBody.find? (pool : ConstantPool) :
    List Attribute → Except ClassError (Option MethodBody)
  | [] => .ok none
  | a :: as => do
      if (← pool.utf8 a.name) = attributeName then return some (← MethodBody.ofInfo a.info)
      else MethodBody.find? pool as

/-- Body of a method, if it has one. -/
def Member.body? {mask : UInt16} (m : Member mask) (pool : ConstantPool) :
    Except ClassError (Option MethodBody) :=
  MethodBody.find? pool m.attributes

end Linkage
