/-!
# CRC-32

The checksum of archive entries: the remainder of the bytes, as a polynomial over
two elements with the lowest bit of every byte first, by the polynomial whose
reversed bits are `0xedb88320`, with the first 32 bits and the result inverted.
-/

set_option autoImplicit false

namespace Linkage.Archive

/-- Reversed bits of the polynomial. -/
def crcPolynomial : UInt32 := 0xedb88320

/-- Remainder after one more bit. -/
def crcBit (r : UInt32) : UInt32 :=
  if r &&& 1 = 1 then (r >>> 1) ^^^ crcPolynomial else r >>> 1

/-- Remainder after one more byte. -/
def crcByte (r : UInt32) (b : UInt8) : UInt32 :=
  Nat.repeat crcBit 8 (r ^^^ b.toUInt32)

/-- Checksum of a list of bytes. -/
def crc32 (bs : List UInt8) : UInt32 := bs.foldl crcByte 0xffffffff ^^^ 0xffffffff

end Linkage.Archive
