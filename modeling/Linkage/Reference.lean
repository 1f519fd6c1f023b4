import Linkage.Access
import Linkage.Descriptor.Basic

/-!
# References

What code asks of a library: a class, a method or a field, with the visibility
that it needs at least. The key of a reference tells what is asked for and leaves
out how much is demanded of it. Two demands on one thing join to the stronger one.
-/

set_option autoImplicit false

namespace Linkage

/-- Thing that a reference asks for. A method can be called through an interface
or through a class. -/
inductive Target where
  | classOf (name : BinaryName)
  | methodOf (owner : BinaryName) (name : UnqualifiedName) (descriptor : MethodDescriptor)
      (isStatic isInterface : Bool)
  | fieldOf (owner : BinaryName) (name : UnqualifiedName) (type : FieldType) (isStatic : Bool)
  deriving DecidableEq

namespace Target

/-- Class that has to be found first. -/
def owner : Target → BinaryName
  | .classOf name => name
  | .methodOf owner .. => owner
  | .fieldOf owner .. => owner

/-- Text that identifies the thing. -/
def key : Target → String
  | .classOf name => name.text
  | .methodOf owner name descriptor _ _ =>
      owner.text ++ "#" ++ name.text ++ descriptor.render
  | .fieldOf owner name type _ => owner.text ++ "#" ++ name.text ++ ":" ++ type.render

/-- Word in front of static members. -/
def staticWord (isStatic : Bool) : String := if isStatic then "static " else ""

/-- Text for readers. -/
def render : Target → String
  | .classOf name => "class " ++ name.dotted
  | .methodOf owner name descriptor isStatic _ =>
      staticWord isStatic ++ "method " ++ owner.dotted ++ "#" ++ name.text ++ descriptor.render
  | .fieldOf owner name type isStatic =>
      staticWord isStatic ++ "field " ++ owner.dotted ++ "#" ++ name.text ++ ":" ++ type.render

/-- Joins another demand on the same thing: a call through an interface makes the
method one of an interface, and all else stays. -/
def join : Target → Target → Target
  | .methodOf owner name descriptor isStatic isInterface, .methodOf _ _ _ _ isInterface' =>
      .methodOf owner name descriptor isStatic (isInterface || isInterface')
  | target, _ => target

/-- Joining keeps the key. -/
theorem key_join (a b : Target) : (a.join b).key = a.key := by
  cases a <;> cases b <;> rfl

/-- Joining keeps the owner. -/
theorem owner_join (a b : Target) : (a.join b).owner = a.owner := by
  cases a <;> cases b <;> rfl

end Target

/-- Reference with the visibility that it needs at least. Private access is asked
for where the class only has to be there. -/
structure Reference where
  target : Target
  visibility : Visibility
  deriving DecidableEq

namespace Reference

/-- Class that has to be found first. -/
def owner (r : Reference) : BinaryName := r.target.owner

/-- Text that identifies what is asked for. -/
def key (r : Reference) : String := r.target.key

/-- Text for readers. -/
def render (r : Reference) : String := r.target.render

instance : ToString Reference := ⟨render⟩

/-- Joins another reference of the same key. -/
def join (a b : Reference) : Reference := ⟨a.target.join b.target, a.visibility.max b.visibility⟩

/-- Joining keeps the key. -/
theorem key_join (a b : Reference) : (a.join b).key = a.key := Target.key_join a.target b.target

/-- Joining keeps the owner. -/
theorem owner_join (a b : Reference) : (a.join b).owner = a.owner :=
  Target.owner_join a.target b.target

end Reference

end Linkage
