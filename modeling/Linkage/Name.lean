import Linkage.Text.Pieces

/-!
# Names

Names of members and of classes as class files have them. The name of a member
is a nonempty text without `.`, `;`, `[` and `/`; the name of a class is one or
more such texts joined by `/`.
-/

set_option autoImplicit false

namespace Linkage

/-- Ways in which a text is no name. -/
inductive NameError where
  | illegalCharacter (name : String)
  | emptyName
  | emptyClassName
  deriving DecidableEq, Repr

/-- What is wrong with the text. -/
def NameError.message : NameError → String
  | .illegalCharacter name => "Unqualified name '" ++ name ++ "' contains an illegal character"
  | .emptyName => "Unqualified name is empty"
  | .emptyClassName => "Binary name is empty"

/-- Characters that no name of a member has. -/
def isNameDelimiter (c : Char) : Bool := c == '.' || c == ';' || c == '[' || c == '/'

/-- What keeps the characters from being the name of a member. -/
def memberNameFault? (cs : List Char) : Option NameError :=
  if cs.any isNameDelimiter then some (.illegalCharacter (String.ofList cs))
  else if cs.isEmpty then some .emptyName
  else none

/-- What keeps the characters from being the name of a class: the fault of the
first segment that has one. -/
def classNameFault? (cs : List Char) : Option NameError :=
  if cs.isEmpty then some .emptyClassName
  else (Text.pieces '/' cs).findSome? memberNameFault?

/-! ## Names of members -/

/-- Name of a field or a method. -/
structure UnqualifiedName where
  text : String
  valid : memberNameFault? text.toList = none
  deriving DecidableEq

namespace UnqualifiedName

/-- Name with the given text. -/
def ofText (text : String) : Except NameError UnqualifiedName :=
  match h : memberNameFault? text.toList with
  | none => .ok ⟨text, h⟩
  | some e => .error e

instance : ToString UnqualifiedName := ⟨UnqualifiedName.text⟩

end UnqualifiedName

/-! ## Names of classes -/

/-- Name of a class or interface, with `/` between its segments. -/
structure BinaryName where
  text : String
  valid : classNameFault? text.toList = none
  deriving DecidableEq

namespace BinaryName

/-- Name with the given text. -/
def ofText (text : String) : Except NameError BinaryName :=
  match h : classNameFault? text.toList with
  | none => .ok ⟨text, h⟩
  | some e => .error e

/-- Names are ordered by their texts. -/
instance : Ord BinaryName := ⟨fun a b => compare a.text b.text⟩

/-- Text of the name with dots between the segments. -/
def dotted (n : BinaryName) : String :=
  String.ofList (n.text.toList.map fun c => if c = '/' then '.' else c)

/-- Everything before the last `/`; a name without one is in the package with the
empty name. -/
def package (n : BinaryName) : String :=
  String.ofList ((n.text.toList.reverse.dropWhile (· ≠ '/')).drop 1).reverse

/-- Whether both classes are in the same package. -/
def samePackage (a b : BinaryName) : Bool := a.package == b.package

/-- Whether the name starts with one of the given texts. -/
def startsWithAny (n : BinaryName) (starts : List String) : Bool :=
  starts.any fun s => s.toList.isPrefixOf n.text.toList

/-- Root of the class hierarchy. -/
def object : BinaryName := ⟨"java/lang/Object", rfl⟩

/-- Class of the objects that stand for classes. -/
def classObject : BinaryName := ⟨"java/lang/Class", rfl⟩

/-- Class of texts. -/
def string : BinaryName := ⟨"java/lang/String", rfl⟩

end BinaryName

end Linkage
