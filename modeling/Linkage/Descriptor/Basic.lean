import Linkage.Name

/-!
# Descriptors

Types of fields and signatures of methods, and the texts that class files have
for them. An array type is its element type with the number of dimensions beyond
the first one, so that there are no arrays without dimensions.
-/

set_option autoImplicit false

namespace Linkage

/-- Primitive types. -/
inductive BaseType where
  | byte
  | char
  | double
  | float
  | int
  | long
  | short
  | boolean
  deriving DecidableEq, Repr

namespace BaseType

/-- Letter of a primitive type. -/
def letter : BaseType → Char
  | .byte => 'B'
  | .char => 'C'
  | .double => 'D'
  | .float => 'F'
  | .int => 'I'
  | .long => 'J'
  | .short => 'S'
  | .boolean => 'Z'

/-- Primitive type with the given letter. -/
def ofLetter? : Char → Option BaseType
  | 'B' => some .byte
  | 'C' => some .char
  | 'D' => some .double
  | 'F' => some .float
  | 'I' => some .int
  | 'J' => some .long
  | 'S' => some .short
  | 'Z' => some .boolean
  | _ => none

theorem ofLetter?_letter (b : BaseType) : ofLetter? b.letter = some b := by cases b <;> rfl

/-- Text of a primitive type. -/
def chars (b : BaseType) : List Char := [b.letter]

end BaseType

/-- Text of a class as a type. -/
def BinaryName.typeChars (n : BinaryName) : List Char := 'L' :: n.text.toList ++ [';']

/-- Class types and array types. The dimensions of an array type are a number without a bound; a type
that is read from a text has fewer of them than the text has characters. -/
inductive ReferenceType where
  | object (name : BinaryName)
  | objectArray (element : BinaryName) (furtherDimensions : Nat)
  | primitiveArray (element : BaseType) (furtherDimensions : Nat)
  deriving DecidableEq

namespace ReferenceType

/-- Text of a reference type. -/
def chars : ReferenceType → List Char
  | .object name => name.typeChars
  | .objectArray element further => List.replicate (further + 1) '[' ++ element.typeChars
  | .primitiveArray element further => List.replicate (further + 1) '[' ++ element.chars

/-- Class at the bottom of the type, if it is not an array of primitives. -/
def elementClass? : ReferenceType → Option BinaryName
  | .object name => some name
  | .objectArray element _ => some element
  | .primitiveArray _ _ => none

end ReferenceType

/-- Type of a field, a parameter or a result. -/
inductive FieldType where
  | base (type : BaseType)
  | reference (type : ReferenceType)
  deriving DecidableEq

namespace FieldType

/-- Text of a type. -/
def chars : FieldType → List Char
  | .base type => type.chars
  | .reference type => type.chars

/-- Class that the type mentions, if any. -/
def class? : FieldType → Option BinaryName
  | .base _ => none
  | .reference type => type.elementClass?

/-- Type of the objects of a class. -/
def ofClass (name : BinaryName) : FieldType := .reference (.object name)

end FieldType

/-- Signature of a method; a method without a result type is void. -/
structure MethodDescriptor where
  parameters : List FieldType
  result : Option FieldType
  deriving DecidableEq

namespace MethodDescriptor

/-- Text of a signature. -/
def chars (d : MethodDescriptor) : List Char :=
  '(' :: d.parameters.flatMap FieldType.chars ++ ')' ::
    match d.result with
    | some type => type.chars
    | none => ['V']

/-- Classes that the parameters and the result mention, in order. -/
def classes (d : MethodDescriptor) : List BinaryName :=
  (d.parameters ++ d.result.toList).filterMap FieldType.class?

end MethodDescriptor

/-! ## Texts -/

/-- Text of a primitive type. -/
def BaseType.render (b : BaseType) : String := String.ofList b.chars

/-- Text of a class as a type. -/
def BinaryName.renderType (n : BinaryName) : String := String.ofList n.typeChars

/-- Text of a reference type. -/
def ReferenceType.render (t : ReferenceType) : String := String.ofList t.chars

/-- Text of a type. -/
def FieldType.render (t : FieldType) : String := String.ofList t.chars

/-- Text of a signature. -/
def MethodDescriptor.render (d : MethodDescriptor) : String := String.ofList d.chars

end Linkage
