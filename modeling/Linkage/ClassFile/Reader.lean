import Linkage.Bytes
import Linkage.ClassFile.Error

/-!
# Reading and writing class files

A reader takes a value off the front of a list of bytes and leaves the rest. The
writers are functions to lists of bytes. Lists are written with their length in
front, in two bytes, and only the low sixteen bits of it are kept.
-/

set_option autoImplicit false

namespace Linkage

/-- Reader of a value at the front of a list of bytes. -/
abbrev ClassReader (α : Type) : Type := StateT (List UInt8) (Except ClassError) α

namespace ClassReader

variable {α : Type}

/-- The given number of bytes. -/
def take (count : Nat) : ClassReader (List UInt8) := fun bs =>
  let halves := bs.splitAt count
  if halves.1.length = count then .ok halves else .error .endOfInput

/-- One byte. -/
def u8 : ClassReader UInt8 := fun
  | [] => .error .endOfInput
  | b :: bs => .ok (b, bs)

/-- A number of two bytes. -/
def u16 : ClassReader UInt16 := do return UInt16.ofNat (ofBigEndian (← take 2))

/-- A number of four bytes. -/
def u32 : ClassReader UInt32 := do return UInt32.ofNat (ofBigEndian (← take 4))

/-- A number of eight bytes. -/
def u64 : ClassReader UInt64 := do return UInt64.ofNat (ofBigEndian (← take 8))

/-- Values read one after the other, after the ones that have been read so far,
which are held backwards. -/
def timesAfter (read : ClassReader α) :
    Nat → List α → List UInt8 → Except ClassError (List α × List UInt8)
  | 0, done, bs => .ok (done.reverse, bs)
  | count + 1, done, bs =>
      match read bs with
      | .error e => .error e
      | .ok (value, rest) => timesAfter read count (value :: done) rest

/-- The given number of values. -/
def times (read : ClassReader α) (count : Nat) : ClassReader (List α) := fun bs =>
  timesAfter read count [] bs

/-- A list with its length in front. -/
def list (read : ClassReader α) : ClassReader (List α) := do
  times read (← u16).toNat

/-- An index that may be missing, which is written as zero. -/
def optionalIndex : ClassReader (Option PoolIndex) := do
  let index ← u16
  return if index = 0 then none else some index

end ClassReader

namespace ClassWriter

/-- Bytes of a number of two bytes. -/
def u16 (n : UInt16) : List UInt8 := bigEndian 2 n.toNat

/-- Bytes of a number of four bytes. -/
def u32 (n : UInt32) : List UInt8 := bigEndian 4 n.toNat

/-- Bytes of a number of eight bytes. -/
def u64 (n : UInt64) : List UInt8 := bigEndian 8 n.toNat

/-- Bytes of a list with its length in front. -/
def list {α : Type} (write : α → List UInt8) (xs : List α) : List UInt8 :=
  bigEndian 2 xs.length ++ xs.flatMap write

/-- Bytes of an index that may be missing. -/
def optionalIndex (index : Option PoolIndex) : List UInt8 := u16 (index.getD 0)

end ClassWriter

end Linkage
