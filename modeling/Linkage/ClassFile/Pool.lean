import Linkage.ClassFile.Constant
import Linkage.SlotTable

/-!
# Constant pools

A constant pool is a slot table that starts at 1. It has few enough slots for its
offsets to be plain numbers. The typed look-ups fail if the index points at nothing
or at a constant of another kind.
-/

set_option autoImplicit false

namespace Linkage

/-- Constants of a class file. -/
structure ConstantPool where
  table : SlotTable Nat Constant
  deriving BEq

/-- Kinds of references to members. -/
inductive MemberKind where
  | field
  | method (isInterface : Bool)
  deriving DecidableEq, Repr

/-- Reference to a member with its texts looked up. -/
structure MemberInfo where
  owner : String
  name : String
  descriptor : String
  kind : MemberKind
  deriving DecidableEq, Repr

namespace ConstantPool

/-- Pool without constants. -/
def empty : ConstantPool := ⟨SlotTable.startingAt 1⟩

/-- One more constant at the end. -/
def push (p : ConstantPool) (c : Constant) : ConstantPool := ⟨(p.table.push c c.width).2⟩

/-- Constants with their indices, in order. -/
def toList (p : ConstantPool) : List (PoolIndex × Constant) :=
  p.table.toList.map fun entry => (UInt16.ofNat entry.1, entry.2)

/-! ## Look-ups -/

/-- Constant at an index. -/
def get? (p : ConstantPool) (index : PoolIndex) : Option Constant := p.table.get? index.toNat

/-- Text at an index. -/
def utf8 (p : ConstantPool) (index : PoolIndex) : Except ClassError String :=
  match p.get? index with
  | some (.utf8 text) => .ok text
  | _ => .error (.badConstantIndex index .utf8)

/-- Name of the class at an index; for an array class it is a descriptor. -/
def className (p : ConstantPool) (index : PoolIndex) : Except ClassError String :=
  match p.get? index with
  | some (.classInfo name) => p.utf8 name
  | _ => .error (.badConstantIndex index .classInfo)

/-- Name and descriptor at an index. -/
def nameAndType (p : ConstantPool) (index : PoolIndex) : Except ClassError (String × String) :=
  match p.get? index with
  | some (.nameAndType name descriptor) => do return (← p.utf8 name, ← p.utf8 descriptor)
  | _ => .error (.badConstantIndex index .nameAndType)

/-- Texts of a reference to a member. Its name and descriptor are looked up before
its owner. -/
def memberOf (p : ConstantPool) (owner signature : PoolIndex) (kind : MemberKind) :
    Except ClassError MemberInfo := do
  let (name, descriptor) ← p.nameAndType signature
  return ⟨← p.className owner, name, descriptor, kind⟩

/-- Reference to a member at an index. -/
def member (p : ConstantPool) (index : PoolIndex) : Except ClassError MemberInfo :=
  match p.get? index with
  | some (.fieldRef owner signature) => p.memberOf owner signature .field
  | some (.methodRef owner signature isInterface) =>
      p.memberOf owner signature (.method isInterface)
  | _ => .error (.badConstantIndex index .member)

/-! ## Reading and writing -/

/-- Reads constants into the given number of slots. A constant of width two may
take one slot more than there are. -/
def readSlots : Nat → ConstantPool → List UInt8 → Except ClassError (ConstantPool × List UInt8)
  | 0, p, bs => .ok (p, bs)
  | 1, p, bs =>
      match Constant.read (UInt16.ofNat p.table.next) bs with
      | .error e => .error e
      | .ok (c, rest) => .ok (p.push c, rest)
  | slots + 2, p, bs =>
      match Constant.read (UInt16.ofNat p.table.next) bs with
      | .error e => .error e
      | .ok (c, rest) =>
          if c.width = 1 then readSlots (slots + 1) (p.push c) rest
          else readSlots slots (p.push c) rest

/-- Reads a pool. The count in front of it is one more than the number of slots. -/
def read : ClassReader ConstantPool := do
  let count ← ClassReader.u16
  fun bs => readSlots (count.toNat - 1) empty bs

/-- Bytes of a pool. -/
def write (p : ConstantPool) : List UInt8 :=
  bigEndian 2 p.table.next ++ p.table.toList.flatMap fun entry => entry.2.write

end ConstantPool

end Linkage
