import Linkage.Environment
import Linkage.Instrumentation
import Linkage.Manifest
import Linkage.OwnClasses

/-!
# Collection

Finds what the classes of a module ask of a library. A class asks for its
supertypes, for the classes in its descriptors, and for the classes and members in
the code of its methods. Of all this only what no own class and nothing in the
environment provides goes into the manifest of the module.

* A class that is only mentioned in a descriptor has to be there, whatever its
  visibility.
* A class in the package of the class that asks can be package-private.
* A member in that package can be package-private, and a member of a superclass
  can be protected.
* Arrays of objects ask for the class of their elements, and the members of arrays
  ask for nothing else.
-/

set_option autoImplicit false

namespace Linkage

/-- Class whose references are collected. -/
structure Referrer where
  name : BinaryName
  superclasses : List BinaryName
  pool : ConstantPool
  own : OwnClasses

namespace Referrer

/-! ## What is demanded -/

/-- Visibility that a class needs to be used here. -/
def classVisibility (r : Referrer) (name : BinaryName) : Visibility :=
  if name.samePackage r.name then .packageAccess else .publicAccess

/-- Visibility that a member of a class needs to be used here. -/
def memberVisibility (r : Referrer) (owner : BinaryName) : Visibility :=
  if owner.samePackage r.name then .packageAccess
  else if r.superclasses.contains owner then .protectedAccess
  else .publicAccess

/-- Demand that a class is there. -/
def presence (name : BinaryName) : Reference := ⟨.classOf name, .privateAccess⟩

/-- Class that a class constant is about, if it is about one. -/
def namedClass? (text : String) : Except ClassError (Option BinaryName) :=
  if text.toList.head? = some '[' then
    ReferenceType.elementClass? <$> ClassError.referenceType text
  else some <$> ClassError.binaryName text

/-- Demand of a class constant. -/
def classUse (r : Referrer) (text : String) : Except ClassError (List Reference) := do
  return (← namedClass? text).toList.map fun name => ⟨.classOf name, r.classVisibility name⟩

/-- Demands of the class constant at an index. -/
def classUseAt (r : Referrer) (index : PoolIndex) : Except ClassError (List Reference) := do
  r.classUse (← r.pool.className index)

/-- Demands of the descriptor of a field. -/
def fieldTypeUse (text : String) : Except ClassError (FieldType × List Reference) := do
  let type ← ClassError.fieldType text
  return (type, type.class?.toList.map presence)

/-- Demands of the descriptor of a method. -/
def signatureUse (text : String) : Except ClassError (MethodDescriptor × List Reference) := do
  let descriptor ← ClassError.methodDescriptor text
  return (descriptor, descriptor.classes.map presence)

/-- Demands of a member that is linked at a class: the classes in its descriptor
come before the member itself. -/
def linkedMemberUse (r : Referrer) (m : MemberInfo) (isStatic isInterfaceCall : Bool)
    (owner : BinaryName) : Except ClassError (List Reference) := do
  let name ← ClassError.unqualifiedName m.name
  let visibility := r.memberVisibility owner
  match m.kind with
  | .field => do
      let (type, mentioned) ← fieldTypeUse m.descriptor
      return mentioned ++ [⟨.fieldOf owner name type isStatic, visibility⟩]
  | .method isInterface => do
      let (descriptor, mentioned) ← signatureUse m.descriptor
      return mentioned ++
        [⟨.methodOf owner name descriptor isStatic (isInterface || isInterfaceCall), visibility⟩]

/-- Demands of a member that an instruction asks for. -/
def memberUse (r : Referrer) (index : PoolIndex) (isStatic isInterfaceCall : Bool) :
    Except ClassError (List Reference) := do
  let m ← r.pool.member index
  -- the members of arrays are those of the root of the hierarchy
  if m.owner.toList.head? = some '[' then r.classUse m.owner
  else
    match r.own.linkOwner? m.name m.descriptor (← ClassError.binaryName m.owner) with
    | none => return []
    | some owner => r.linkedMemberUse m isStatic isInterfaceCall owner

/-- Demands of an instruction. -/
def instructionUse (r : Referrer) : Instruction → Except ClassError (List Reference)
  | .getStatic index => r.memberUse index true false
  | .putStatic index => r.memberUse index true false
  | .getField index => r.memberUse index false false
  | .putField index => r.memberUse index false false
  | .invoke .static index => r.memberUse index true false
  | .invoke .virtual index => r.memberUse index false false
  | .invoke .special index => r.memberUse index false false
  | .invoke (.interface _) index => r.memberUse index false true
  | .newObject index => r.classUseAt index
  | .newArray index => r.classUseAt index
  | .checkCast index => r.classUseAt index
  | .instanceOf index => r.classUseAt index
  | .newMultiArray index _ => r.classUseAt index
  | .load index =>
      match r.pool.get? index with
      | some (.classInfo name) => do r.classUse (← r.pool.utf8 name)
      | _ => .ok []
  | .invokeDynamic _ => .ok []
  | .loadWide _ => .ok []
  | .other _ _ => .ok []

/-- Demands of the body of a method. Code that cannot be decoded is a fault after
the demands of the instructions in front of it. -/
def bodyUse (r : Referrer) (body : MethodBody) : Except ClassError (List Reference) := do
  let code := Disassembly.ofCode body.code
  -- a fault of an instruction in front wins over the fault that ends the code
  let instructions ← code.instructions.mapM fun entry => r.instructionUse entry.2
  match code.fault with
  | some fault => throw fault
  | none =>
      let caught ← (body.handlers.filterMap Handler.catchType).mapM r.classUseAt
      return instructions.flatten ++ caught.flatten

/-- Demands of a method. -/
def methodUse (r : Referrer) (m : Method) : Except ClassError (List Reference) := do
  let (_, mentioned) ← signatureUse (← r.pool.utf8 m.descriptor)
  match ← m.body? r.pool with
  | none => return mentioned
  | some body => return mentioned ++ (← r.bodyUse body)

/-- Demands of a field. -/
def fieldUse (r : Referrer) (f : Field) : Except ClassError (List Reference) := do
  return (← fieldTypeUse (← r.pool.utf8 f.descriptor)).2

/-- All demands of a class. -/
def uses (r : Referrer) (c : ClassFile) : Except ClassError (List Reference) := do
  -- the order decides which of several faults is told
  let superclass ← (← c.superName).toList.mapM r.classUse
  let interfaces ← (← c.interfaceNames).mapM r.classUse
  let fields ← c.fields.mapM r.fieldUse
  let methods ← c.methods.mapM r.methodUse
  return (superclass ++ interfaces ++ fields ++ methods).flatten

/-- Referrer of a class file among its own classes. -/
def ofClassFile (own : OwnClasses) (c : ClassFile) : Except ClassError Referrer := do
  let name ← ClassError.binaryName (← c.thisName)
  return ⟨name, own.superclasses name, c.pool, own⟩

end Referrer

/-! ## Manifests of modules -/

/-- Whether neither an own class nor the environment provides the class. -/
def Environment.isExternal (e : Environment) (own : OwnClasses) (name : BinaryName) : Bool :=
  !own.contains name && !e.provides name

namespace Instrumentation

/-- Demands of one class file of a module on anything external, each with the class
that makes it. -/
def demandsOf (e : Environment) (own : OwnClasses) (c : ClassFile) :
    Except ClassError (List (Reference × BinaryName)) := do
  let referrer ← Referrer.ofClassFile own c
  let uses ← referrer.uses c
  return (uses.filter fun use => e.isExternal own use.owner).map fun use => (use, referrer.name)

/-- Demands of a module on anything external. All class files have to be readable
as own classes before any of them is looked at for references. -/
def demands (e : Environment) (m : Instrumentation) :
    Except ClassError (List (Reference × BinaryName)) := do
  let own ← OwnClasses.ofClassFiles m.classes
  return (← m.classes.mapM (demandsOf e own)).flatten

/-- Manifest of a module. -/
def collect (e : Environment) (m : Instrumentation) : Except ClassError Manifest := do
  return (← m.demands e).foldl (fun manifest demand => manifest.add demand.1 demand.2) .empty

end Instrumentation

end Linkage
