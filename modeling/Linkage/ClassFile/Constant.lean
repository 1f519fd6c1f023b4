import Linkage.ClassFile.Reader
import Linkage.Text.ModifiedUtf8

/-!
# Constants

The entries of a constant pool with their reader and writer. Constants refer to
each other by index. Floating point numbers are kept as their bits.
-/

set_option autoImplicit false

namespace Linkage

/-! ## Method handles -/

/-- Kinds of method handles. -/
inductive HandleKind where
  | getField
  | getStatic
  | putField
  | putStatic
  | invokeVirtual
  | invokeStatic
  | invokeSpecial
  | newInvokeSpecial
  | invokeInterface
  deriving DecidableEq, Hashable, Repr

namespace HandleKind

/-- Byte of a kind. -/
def code : HandleKind → UInt8
  | .getField => 1
  | .getStatic => 2
  | .putField => 3
  | .putStatic => 4
  | .invokeVirtual => 5
  | .invokeStatic => 6
  | .invokeSpecial => 7
  | .newInvokeSpecial => 8
  | .invokeInterface => 9

/-- Kind of a byte. -/
def ofCode? (b : UInt8) : Option HandleKind :=
  match b.toNat with
  | 1 => some .getField
  | 2 => some .getStatic
  | 3 => some .putField
  | 4 => some .putStatic
  | 5 => some .invokeVirtual
  | 6 => some .invokeStatic
  | 7 => some .invokeSpecial
  | 8 => some .newInvokeSpecial
  | 9 => some .invokeInterface
  | _ => none

theorem ofCode?_code (k : HandleKind) : ofCode? k.code = some k := by cases k <;> rfl

end HandleKind

/-! ## Constants -/

/-- Entry of a constant pool. -/
inductive Constant where
  | classInfo (name : PoolIndex)
  | fieldRef (owner signature : PoolIndex)
  | methodRef (owner signature : PoolIndex) (isInterface : Bool)
  | string (text : PoolIndex)
  | integer (value : Int32)
  | float (bits : UInt32)
  | long (value : Int64)
  | double (bits : UInt64)
  | nameAndType (name descriptor : PoolIndex)
  | utf8 (text : String)
  | methodHandle (kind : HandleKind) (member : PoolIndex)
  | methodType (descriptor : PoolIndex)
  | dynamic (bootstrap : UInt16) (signature : PoolIndex)
  | invokeDynamic (bootstrap : UInt16) (signature : PoolIndex)
  | moduleInfo (name : PoolIndex)
  | packageInfo (name : PoolIndex)
  deriving DecidableEq, Hashable, Repr

namespace Constant

/-- Number of slots: constants of eight bytes take two. -/
def width : Constant → Nat
  | .long _ => 2
  | .double _ => 2
  | _ => 1

open ClassReader in
/-- Reads the constant that will stand at the given index. -/
def read (index : PoolIndex) : ClassReader Constant := do
  let tag ← u8
  match tag.toNat with
  | 1 =>
      match Text.ofModifiedUtf8? (← take (← u16).toNat) with
      | some text => return .utf8 text
      | none => throw (.badModifiedUtf8 index)
  | 3 => return .integer (← u32).toInt32
  | 4 => return .float (← u32)
  | 5 => return .long (← u64).toInt64
  | 6 => return .double (← u64)
  | 7 => return .classInfo (← u16)
  | 8 => return .string (← u16)
  | 9 => return .fieldRef (← u16) (← u16)
  | 10 => return .methodRef (← u16) (← u16) false
  | 11 => return .methodRef (← u16) (← u16) true
  | 12 => return .nameAndType (← u16) (← u16)
  | 15 =>
      let code ← u8
      match HandleKind.ofCode? code with
      | some kind => return .methodHandle kind (← u16)
      | none => throw (.badHandleKind code)
  | 16 => return .methodType (← u16)
  | 17 => return .dynamic (← u16) (← u16)
  | 18 => return .invokeDynamic (← u16) (← u16)
  | 19 => return .moduleInfo (← u16)
  | 20 => return .packageInfo (← u16)
  | _ => throw (.unknownConstantTag tag index)

open ClassWriter in
/-- Bytes of a constant. Of the length of a text only the low sixteen bits are
kept. -/
def write : Constant → List UInt8
  | .utf8 text =>
      let bytes := Text.modifiedUtf8 text
      1 :: bigEndian 2 bytes.length ++ bytes
  | .integer value => 3 :: u32 value.toUInt32
  | .float bits => 4 :: u32 bits
  | .long value => 5 :: u64 value.toUInt64
  | .double bits => 6 :: u64 bits
  | .classInfo name => 7 :: u16 name
  | .string text => 8 :: u16 text
  | .fieldRef owner signature => 9 :: u16 owner ++ u16 signature
  | .methodRef owner signature false => 10 :: u16 owner ++ u16 signature
  | .methodRef owner signature true => 11 :: u16 owner ++ u16 signature
  | .nameAndType name descriptor => 12 :: u16 name ++ u16 descriptor
  | .methodHandle kind member => 15 :: kind.code :: u16 member
  | .methodType descriptor => 16 :: u16 descriptor
  | .dynamic bootstrap signature => 17 :: u16 bootstrap ++ u16 signature
  | .invokeDynamic bootstrap signature => 18 :: u16 bootstrap ++ u16 signature
  | .moduleInfo name => 19 :: u16 name
  | .packageInfo name => 20 :: u16 name

end Constant

end Linkage
