/-!
# UTF-16

Characters as 16-bit units. A character beyond the first 65536 code points is a
pair of surrogate units, a high one and a low one; no other use of surrogates is
a text.
-/

set_option autoImplicit false

namespace Linkage.Text

/-- Units of a character. -/
def unitsOf (c : Char) : List UInt16 :=
  if c.toNat < 0x10000 then [UInt16.ofNat c.toNat]
  else
    let n := c.toNat - 0x10000
    [UInt16.ofNat (0xd800 + n / 0x400), UInt16.ofNat (0xdc00 + n % 0x400)]

/-- Units of a list of characters. -/
def utf16 (cs : List Char) : List UInt16 := cs.flatMap unitsOf

/-- Units that start a pair. -/
def isHighSurrogate (u : UInt16) : Bool := 0xd800 ≤ u && u ≤ 0xdbff

/-- Units that end a pair. -/
def isLowSurrogate (u : UInt16) : Bool := 0xdc00 ≤ u && u ≤ 0xdfff

/-- Character of a pair of surrogates. -/
def pairChar (high low : UInt16) : Char :=
  Char.ofNat (0x10000 + (high.toNat - 0xd800) * 0x400 + (low.toNat - 0xdc00))

/-- Characters of the units, after the characters that have been read so far,
which are held backwards. There are none if a surrogate has no partner. -/
def readUtf16 (done : List Char) : List UInt16 → Option (List Char)
  | [] => some done.reverse
  | u :: us =>
      if isHighSurrogate u then
        match us with
        | v :: vs => if isLowSurrogate v then readUtf16 (pairChar u v :: done) vs else none
        | [] => none
      else if isLowSurrogate u then none
      else readUtf16 (Char.ofNat u.toNat :: done) us

/-- Characters of a list of units. -/
def ofUtf16? (us : List UInt16) : Option (List Char) := readUtf16 [] us

end Linkage.Text
