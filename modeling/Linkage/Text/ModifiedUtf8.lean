import Linkage.Text.Utf16

/-!
# Modified UTF-8

The encoding of texts in class files. Every UTF-16 unit is encoded on its own, in
one byte, in two or in three, so characters beyond the first 65536 code points
take six bytes. The unit zero is encoded in two bytes, and there is no zero byte
in an encoded text. Reading accepts forms that are longer than necessary.
-/

set_option autoImplicit false

namespace Linkage.Text

/-- Bytes of a unit. -/
def unitBytes (u : UInt16) : List UInt8 :=
  let n := u.toNat
  if n ≠ 0 ∧ n < 0x80 then [UInt8.ofNat n]
  else if n < 0x800 then [UInt8.ofNat (0xc0 + n / 0x40), UInt8.ofNat (0x80 + n % 0x40)]
  else
    [UInt8.ofNat (0xe0 + n / 0x1000), UInt8.ofNat (0x80 + n / 0x40 % 0x40),
      UInt8.ofNat (0x80 + n % 0x40)]

/-- Bytes of a text. -/
def modifiedUtf8 (s : String) : List UInt8 := (utf16 s.toList).flatMap unitBytes

/-- Bytes that continue a unit. -/
def isContinuation (b : UInt8) : Bool := 0x80 ≤ b && b ≤ 0xbf

/-- Unit of a leading byte in a two-byte form. -/
def unitOfTwo (a b : UInt8) : UInt16 :=
  UInt16.ofNat ((a.toNat - 0xc0) * 0x40 + (b.toNat - 0x80))

/-- Unit of a leading byte in a three-byte form. -/
def unitOfThree (a b c : UInt8) : UInt16 :=
  UInt16.ofNat ((a.toNat - 0xe0) * 0x1000 + (b.toNat - 0x80) * 0x40 + (c.toNat - 0x80))

/-- Units of the bytes, after the units that have been read so far, which are
held backwards. There are none if a byte is zero, starts no form or lacks its
continuation. -/
def readUnits (done : List UInt16) : List UInt8 → Option (List UInt16)
  | [] => some done.reverse
  | a :: bs =>
      if a = 0 then none
      else if a < 0x80 then readUnits (UInt16.ofNat a.toNat :: done) bs
      else if 0xc0 ≤ a ∧ a < 0xe0 then
        match bs with
        | b :: bs => if isContinuation b then readUnits (unitOfTwo a b :: done) bs else none
        | [] => none
      else if 0xe0 ≤ a ∧ a < 0xf0 then
        match bs with
        | b :: c :: bs =>
            if isContinuation b && isContinuation c then
              readUnits (unitOfThree a b c :: done) bs
            else none
        | _ => none
      else none

/-- Text of the bytes, if they encode one. -/
def ofModifiedUtf8? (bs : List UInt8) : Option String :=
  ((readUnits [] bs).bind ofUtf16?).map String.ofList

end Linkage.Text
