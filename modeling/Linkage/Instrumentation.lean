import Linkage.Artifact

/-!
# Instrumentation

A module of instrumentation code, which is woven into a library at run time. Its
classes are everything that ships with it.
-/

set_option autoImplicit false

namespace Linkage

/-- Named module of instrumentation code. -/
structure Instrumentation where
  name : String
  classes : List ClassFile

namespace Instrumentation

/-- Module of class files. -/
def ofClassFiles (name : String) (files : List (List UInt8)) : Except Error Instrumentation := do
  return ⟨name, ← (files.mapM ClassFile.parse).mapError .malformedClass⟩

/-- Module of every class of an artifact. -/
def ofArtifact (reader : ArchiveReader) (name : String) (artifact : List UInt8) :
    Except Error Instrumentation := do
  return ⟨name, ← Artifact.readClasses reader artifact⟩

end Instrumentation

end Linkage
