import Linkage.ClassFile.Basic

/-!
# Class outlines

What matters of a class for linking against it: its name, its supertypes, its
visibility and the members that it declares. An outline is made of a class file,
whose names and descriptors have to be well formed; the members are looked at
before the class itself.
-/

set_option autoImplicit false

namespace Linkage

/-- Member that a class declares, with a type of the given kind. -/
structure DeclaredMember (type : Type) where
  name : UnqualifiedName
  descriptor : type
  visibility : Visibility
  isStatic : Bool
  deriving DecidableEq

/-- Method that a class declares. -/
abbrev DeclaredMethod : Type := DeclaredMember MethodDescriptor

/-- Field that a class declares. -/
abbrev DeclaredField : Type := DeclaredMember FieldType

/-- Outline of a class. Only the root of the hierarchy has no superclass. -/
structure ClassOutline where
  name : BinaryName
  superClass : Option BinaryName
  interfaces : List BinaryName
  isInterface : Bool
  visibility : Visibility
  methods : List DeclaredMethod
  fields : List DeclaredField
  deriving DecidableEq

namespace ClassOutline

/-- Declared member of a member of a class file. -/
def declare {mask : UInt16} {type : Type} (parse : String → Except ClassError type)
    (pool : ConstantPool) (m : Member mask) : Except ClassError (DeclaredMember type) := do
  let name ← ClassError.unqualifiedName (← pool.utf8 m.name)
  let descriptor ← parse (← pool.utf8 m.descriptor)
  return ⟨name, descriptor, m.flags.memberVisibility, m.flags.isStatic⟩

/-- Outline of a class file. -/
def ofClassFile (c : ClassFile) : Except ClassError ClassOutline := do
  let methods ← c.methods.mapM (declare ClassError.methodDescriptor c.pool)
  let fields ← c.fields.mapM (declare ClassError.fieldType c.pool)
  let name ← ClassError.binaryName (← c.thisName)
  let superClass ←
    match ← c.superName with
    | none => pure none
    | some text => some <$> ClassError.binaryName text
  let interfaces ← (← c.interfaceNames).mapM ClassError.binaryName
  return ⟨name, superClass, interfaces, c.isInterface, c.flags.classVisibility, methods, fields⟩

/-! ## The root of the hierarchy -/

/-- Method of the root of the hierarchy. -/
def rootMethod (name : UnqualifiedName) (parameters : List FieldType)
    (result : Option FieldType) (visibility : Visibility) : DeclaredMethod :=
  ⟨name, ⟨parameters, result⟩, visibility, false⟩

/-- Outline of the root of the hierarchy, which no artifact has to define. -/
def object : ClassOutline :=
  let type := FieldType.ofClass BinaryName.object
  let long := FieldType.base .long
  let int := FieldType.base .int
  { name := BinaryName.object
    superClass := none
    interfaces := []
    isInterface := false
    visibility := .publicAccess
    methods :=
      [rootMethod ⟨"<init>", rfl⟩ [] none .publicAccess,
        rootMethod ⟨"clone", rfl⟩ [] (some type) .protectedAccess,
        rootMethod ⟨"equals", rfl⟩ [type] (some (.base .boolean)) .publicAccess,
        rootMethod ⟨"finalize", rfl⟩ [] none .protectedAccess,
        rootMethod ⟨"getClass", rfl⟩ [] (some (.ofClass BinaryName.classObject)) .publicAccess,
        rootMethod ⟨"hashCode", rfl⟩ [] (some int) .publicAccess,
        rootMethod ⟨"notify", rfl⟩ [] none .publicAccess,
        rootMethod ⟨"notifyAll", rfl⟩ [] none .publicAccess,
        rootMethod ⟨"toString", rfl⟩ [] (some (.ofClass BinaryName.string)) .publicAccess,
        rootMethod ⟨"wait", rfl⟩ [] none .publicAccess,
        rootMethod ⟨"wait", rfl⟩ [long] none .publicAccess,
        rootMethod ⟨"wait", rfl⟩ [long, int] none .publicAccess]
    fields := [] }

end ClassOutline

end Linkage
