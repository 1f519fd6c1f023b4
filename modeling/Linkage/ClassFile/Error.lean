import Linkage.Descriptor.Parser
import Linkage.Text.Hex

/-!
# Faults of class files

Ways in which reading or making a class file fails, and their messages.
-/

set_option autoImplicit false

namespace Linkage

/-- Index into a constant pool. -/
abbrev PoolIndex : Type := UInt16

/-- Kinds of constants that an index can be required to point at. -/
inductive ConstantKind where
  | utf8
  | classInfo
  | nameAndType
  | member
  deriving DecidableEq, Repr

/-- Name of a kind of constants. -/
def ConstantKind.name : ConstantKind → String
  | .utf8 => "CONSTANT_Utf8"
  | .classInfo => "CONSTANT_Class"
  | .nameAndType => "CONSTANT_NameAndType"
  | .member => "member reference"

/-- Ways in which a class file is malformed. -/
inductive ClassError where
  | endOfInput
  | badMagic (bytes : List UInt8)
  | unknownConstantTag (tag : UInt8) (index : PoolIndex)
  | badConstantIndex (index : PoolIndex) (expected : ConstantKind)
  | badModifiedUtf8 (index : PoolIndex)
  | badHandleKind (kind : UInt8)
  | malformedName (error : NameError)
  | malformedDescriptor (error : DescriptorError)
  | unknownOpcode (opcode : UInt8) (offset : Nat)
  | truncatedCode (offset : Nat)
  | poolOverflow (offset : Nat)
  deriving DecidableEq, Repr

/-- What is wrong. -/
def ClassError.message : ClassError → String
  | .endOfInput => "I/O error: failed to fill whole buffer"
  | .badMagic bytes =>
      "bad class file magic [" ++ ", ".intercalate (bytes.map Text.upperHexByte) ++ "]"
  | .unknownConstantTag tag index =>
      "unknown constant tag " ++ toString tag ++ " at #" ++ toString index
  | .badConstantIndex index expected =>
      "constant #" ++ toString index ++ " is not a valid " ++ expected.name
  | .badModifiedUtf8 index => "constant #" ++ toString index ++ " is not valid modified UTF-8"
  | .badHandleKind kind => "unknown method handle kind " ++ toString kind
  | .malformedName error => "malformed name: " ++ error.message
  | .malformedDescriptor error => "malformed descriptor: " ++ error.message
  | .unknownOpcode opcode offset =>
      "unknown opcode 0x" ++ Text.hexByte opcode ++ " at code offset " ++ toString offset
  | .truncatedCode offset => "instruction at code offset " ++ toString offset ++ " is truncated"
  | .poolOverflow offset => "constant pool overflowed at #" ++ toString offset

/-- Name of a class found in a class file. -/
def ClassError.binaryName (text : String) : Except ClassError BinaryName :=
  (BinaryName.ofText text).mapError .malformedName

/-- Name of a member found in a class file. -/
def ClassError.unqualifiedName (text : String) : Except ClassError UnqualifiedName :=
  (UnqualifiedName.ofText text).mapError .malformedName

/-- Type of a field found in a class file. -/
def ClassError.fieldType (text : String) : Except ClassError FieldType :=
  (FieldType.parse text).mapError .malformedDescriptor

/-- Class or array type found in a class file. -/
def ClassError.referenceType (text : String) : Except ClassError ReferenceType :=
  (ReferenceType.parse text).mapError .malformedDescriptor

/-- Signature of a method found in a class file. -/
def ClassError.methodDescriptor (text : String) : Except ClassError MethodDescriptor :=
  (MethodDescriptor.parse text).mapError .malformedDescriptor

end Linkage
