/-!
# Access

Visibilities of classes and members, and the sets of access flags that class
files declare them with. A set of flags holds only the bits that are defined for
its kind of declaration; the other bits are dropped when it is made.
-/

set_option autoImplicit false

namespace Linkage

/-! ## Visibility -/

/-- Visibilities from the most restrictive to the most permissive one. -/
inductive Visibility where
  | privateAccess
  | packageAccess
  | protectedAccess
  | publicAccess
  deriving DecidableEq, Repr

namespace Visibility

/-- Place of a visibility among all. -/
def rank : Visibility → Nat
  | .privateAccess => 0
  | .packageAccess => 1
  | .protectedAccess => 2
  | .publicAccess => 3

/-- Whether a declaration with this visibility will do where the other one is
required. Everything will do where private access is required. -/
def satisfies (declared required : Visibility) : Bool := required.rank ≤ declared.rank

/-- The more permissive of two visibilities. -/
def max (a b : Visibility) : Visibility := if a.rank ≤ b.rank then b else a

/-- Name of a visibility. -/
def name : Visibility → String
  | .privateAccess => "private"
  | .packageAccess => "package-private"
  | .protectedAccess => "protected"
  | .publicAccess => "public"

theorem rank_injective {a b : Visibility} (h : a.rank = b.rank) : a = b := by
  cases a <;> cases b <;> simp_all [rank]

end Visibility

/-! ## Flags -/

/-- Set of access flags among the bits of a mask. -/
structure FlagSet (mask : UInt16) where
  bits : UInt16
  defined : bits &&& mask = bits
  deriving DecidableEq

namespace FlagSet

variable {mask : UInt16}

/-- Defined flags among the given bits. -/
def ofBits (bits : UInt16) : FlagSet mask :=
  ⟨bits &&& mask, by rw [UInt16.and_assoc, UInt16.and_self]⟩

/-- Whether the set has one of the flags. -/
def has (f : FlagSet mask) (flags : UInt16) : Bool := f.bits &&& flags != 0

theorem ofBits_bits (f : FlagSet mask) : ofBits f.bits = f := by
  cases f with
  | mk bits defined => simp [ofBits, defined]

end FlagSet

/-- Flag of public declarations. -/
def Flag.publicBit : UInt16 := 0x0001

/-- Flag of private members. -/
def Flag.privateBit : UInt16 := 0x0002

/-- Flag of protected members. -/
def Flag.protectedBit : UInt16 := 0x0004

/-- Flag of static members. -/
def Flag.staticBit : UInt16 := 0x0008

/-- Flag of interfaces. -/
def Flag.interfaceBit : UInt16 := 0x0200

/-- Flags of a class. -/
abbrev ClassFlags : Type := FlagSet 0xf631

/-- Flags of a method. -/
abbrev MethodFlags : Type := FlagSet 0x1dff

/-- Flags of a field. -/
abbrev FieldFlags : Type := FlagSet 0x50df

/-- Visibility of a member: the first of public, protected and private that is
set, and package-private without them. -/
def FlagSet.memberVisibility {mask : UInt16} (f : FlagSet mask) : Visibility :=
  if f.has Flag.publicBit then .publicAccess
  else if f.has Flag.protectedBit then .protectedAccess
  else if f.has Flag.privateBit then .privateAccess
  else .packageAccess

/-- Visibility of a class, which is public or package-private. -/
def FlagSet.classVisibility {mask : UInt16} (f : FlagSet mask) : Visibility :=
  if f.has Flag.publicBit then .publicAccess else .packageAccess

/-- Whether a member is static. -/
def FlagSet.isStatic {mask : UInt16} (f : FlagSet mask) : Bool := f.has Flag.staticBit

/-- Whether a class is an interface. -/
def FlagSet.isInterface {mask : UInt16} (f : FlagSet mask) : Bool := f.has Flag.interfaceBit

end Linkage
