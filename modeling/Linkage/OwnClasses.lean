import Linkage.ClassFile.Basic
import Linkage.Visits

/-!
# Own classes

What is known of the classes that a module ships with: their superclasses and the
members that they declare. A walk up the superclasses goes through own classes and
ends with the first class that is not one of them; it ends as well when it comes
back to a class that it has been at.
-/

set_option autoImplicit false

namespace Linkage

/-- Own class of a module: its superclass, and the names and descriptors of the
members that it declares. -/
structure OwnClass where
  superClass : Option BinaryName
  members : List (String × String)
  deriving DecidableEq

namespace OwnClass

/-- Name and descriptor of a member of a class file. -/
def signature {mask : UInt16} (pool : ConstantPool) (m : Member mask) :
    Except ClassError (String × String) := do
  return (← pool.utf8 m.name, ← pool.utf8 m.descriptor)

/-- Own class of a class file. -/
def ofClassFile (c : ClassFile) : Except ClassError OwnClass := do
  let superClass ←
    match ← c.superName with
    | none => pure none
    | some text => some <$> ClassError.binaryName text
  let fields ← c.fields.mapM (signature c.pool)
  let methods ← c.methods.mapM (signature c.pool)
  return ⟨superClass, fields ++ methods⟩

/-- Whether the class declares a member of this name and descriptor. -/
def declares (c : OwnClass) (name descriptor : String) : Bool :=
  c.members.contains (name, descriptor)

end OwnClass

/-- Own classes by their names. The first class of a name is the one that counts. -/
structure OwnClasses where
  rows : List (BinaryName × OwnClass)
  deriving DecidableEq

namespace OwnClasses

/-- Own class of a class file, with its name. -/
def rowOf (c : ClassFile) : Except ClassError (BinaryName × OwnClass) := do
  let name ← ClassError.binaryName (← c.thisName)
  return (name, ← OwnClass.ofClassFile c)

/-- Own classes of class files. The last class file of a name is the one that
counts. -/
def ofClassFiles (classFiles : List ClassFile) : Except ClassError OwnClasses := do
  -- looking up takes the first row of a name, so the last class file comes first
  return ⟨(← classFiles.mapM rowOf).reverse⟩

/-- Own class of a name. -/
def find? (own : OwnClasses) (name : BinaryName) : Option OwnClass :=
  (own.rows.find? fun row => row.1 == name).map Prod.snd

/-- Whether there is an own class of the name. -/
def contains (own : OwnClasses) (name : BinaryName) : Bool := (own.find? name).isSome

/-- Names of the own classes. -/
def names (own : OwnClasses) : List BinaryName := own.rows.map Prod.fst

/-- A class that is found is among the names. -/
theorem mem_names_of_find? {own : OwnClasses} {name : BinaryName} {c : OwnClass}
    (h : own.find? name = some c) : name ∈ own.names := by
  obtain ⟨row, hrow, -⟩ := Option.map_eq_some_iff.1 h
  have hname := List.find?_some hrow
  exact List.mem_map.2 ⟨row, List.mem_of_find?_eq_some hrow, by simpa using hname⟩

/-! ## Walks up the superclasses -/

/-- A class and its superclasses in ascending order, without the classes that have
been visited and what lies behind them. -/
def lineageFrom (own : OwnClasses) (visited : List BinaryName) (name : BinaryName) :
    List BinaryName :=
  if name ∈ visited then []
  else
    match _ : own.find? name with
    | none => [name]
    | some c =>
        match c.superClass with
        | none => [name]
        | some superClass => name :: lineageFrom own (name :: visited) superClass
termination_by unvisited own.names visited
decreasing_by
  rename_i hfirst hfound
  exact unvisited_cons_lt (mem_names_of_find? hfound) hfirst

/-- Superclasses of an own class, as far as the own classes tell them. -/
def superclasses (own : OwnClasses) (name : BinaryName) : List BinaryName :=
  (own.lineageFrom [] name).drop 1

/-- Class beyond the own ones that is reached from a class on the way up, if no own
class on the way declares the member and none has been visited. -/
def linkOwnerFrom (own : OwnClasses) (name descriptor : String) (visited : List BinaryName)
    (current : BinaryName) : Option BinaryName :=
  if current ∈ visited then none
  else
    match _ : own.find? current with
    | none => some current
    | some c =>
        if c.declares name descriptor then none
        else
          match c.superClass with
          | none => none
          | some superClass => linkOwnerFrom own name descriptor (current :: visited) superClass
termination_by unvisited own.names visited
decreasing_by
  rename_i hfirst hfound _
  exact unvisited_cons_lt (mem_names_of_find? hfound) hfirst

/-- Class at which linking of a member begins that is asked for at a class. An
inherited member is found at the first superclass beyond the own classes; for one
that an own class declares there is nothing to link. -/
def linkOwner? (own : OwnClasses) (name descriptor : String) (owner : BinaryName) :
    Option BinaryName :=
  own.linkOwnerFrom name descriptor [] owner

end OwnClasses

end Linkage
