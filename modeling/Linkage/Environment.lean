import Linkage.Name

/-!
# Environments

What surrounds a library at run time: the platform, whose classes are known by the
starts of their names and are never among those of an artifact, and the framework
that carries the instrumentation.
-/

set_option autoImplicit false

namespace Linkage

/-- Platform, given by the starts of the names of its classes. -/
structure Platform where
  starts : List String
  deriving DecidableEq, Repr

namespace Platform

/-- Platform that provides no class. -/
def empty : Platform := ⟨[]⟩

/-- Platform with the usual packages. -/
def standard : Platform := ⟨["java/", "javax/", "jdk/", "sun/", "com/sun/"]⟩

instance : Inhabited Platform := ⟨standard⟩

/-- One more start of names. -/
def addStart (p : Platform) (start : String) : Platform := ⟨p.starts ++ [start]⟩

/-- Whether the class is one of the platform. -/
def provides (p : Platform) (name : BinaryName) : Bool := name.startsWithAny p.starts

end Platform

/-- What surrounds a library: the platform, and the starts of the names of the
framework's classes. -/
structure Environment where
  platform : Platform
  frameworkStarts : List String
  deriving DecidableEq, Repr

namespace Environment

/-- The usual platform without a framework. -/
def standard : Environment := ⟨Platform.standard, []⟩

instance : Inhabited Environment := ⟨standard⟩

/-- One more start of names of the framework. -/
def addFrameworkStart (e : Environment) (start : String) : Environment :=
  { e with frameworkStarts := e.frameworkStarts ++ [start] }

/-- Whether something other than the library provides the class. -/
def provides (e : Environment) (name : BinaryName) : Bool :=
  e.platform.provides name || name.startsWithAny e.frameworkStarts

end Environment

end Linkage
