/-!
# Hexadecimal digits

Bytes as two hexadecimal digits.
-/

set_option autoImplicit false

namespace Linkage.Text

/-- Digits of a byte in lowercase. -/
def hexByte (b : UInt8) : String :=
  String.ofList [Nat.digitChar (b.toNat / 16), Nat.digitChar (b.toNat % 16)]

/-- Digits of a byte in uppercase. -/
def upperHexByte (b : UInt8) : String := (hexByte b).toUpper

end Linkage.Text
