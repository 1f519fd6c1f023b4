/-!
# UTF-8 with replacements

Texts of bytes that should be UTF-8. Where the bytes are no character, the longest
start of one, or else a single byte, is replaced by U+FFFD.
-/

set_option autoImplicit false

namespace Linkage.Text

/-- Character that stands for bytes that are no character. -/
def replacement : Char := '\ufffd'

/-- Least and greatest second byte of a character and its number of bytes, for a
first byte that starts a longer character than one byte. -/
def utf8Form? (a : UInt8) : Option (UInt8 × UInt8 × Nat) :=
  if 0xc2 ≤ a ∧ a ≤ 0xdf then some (0x80, 0xbf, 2)
  else if a = 0xe0 then some (0xa0, 0xbf, 3)
  else if a = 0xed then some (0x80, 0x9f, 3)
  else if 0xe1 ≤ a ∧ a ≤ 0xef then some (0x80, 0xbf, 3)
  else if a = 0xf0 then some (0x90, 0xbf, 4)
  else if 0xf1 ≤ a ∧ a ≤ 0xf3 then some (0x80, 0xbf, 4)
  else if a = 0xf4 then some (0x80, 0x8f, 4)
  else none

/-- Part of a character that has been read: its bits so far, the number of bytes
that are missing and the least and greatest byte that may follow. -/
structure Utf8Part where
  value : Nat
  missing : Nat
  least : UInt8
  greatest : UInt8

/-- Characters after one more byte that starts a character. The characters so far
are held backwards. -/
def utf8Start (done : List Char) (a : UInt8) : List Char × Option Utf8Part :=
  if a < 0x80 then (Char.ofNat a.toNat :: done, none)
  else
    match utf8Form? a with
    | none => (replacement :: done, none)
    | some (least, greatest, size) =>
        (done, some ⟨a.toNat % (1 <<< (7 - size)), size - 1, least, greatest⟩)

/-- Characters after one more byte. -/
def utf8Step : List Char × Option Utf8Part → UInt8 → List Char × Option Utf8Part
  | (done, none), a => utf8Start done a
  | (done, some part), a =>
      if part.least ≤ a ∧ a ≤ part.greatest then
        let value := part.value * 64 + a.toNat % 64
        if part.missing = 1 then (Char.ofNat value :: done, none)
        else (done, some ⟨value, part.missing - 1, 0x80, 0xbf⟩)
      else utf8Start (replacement :: done) a

/-- Text of a list of bytes. -/
def ofUtf8 (bytes : List UInt8) : String :=
  match bytes.foldl utf8Step ([], none) with
  | (done, none) => String.ofList done.reverse
  | (done, some _) => String.ofList (replacement :: done).reverse

end Linkage.Text
