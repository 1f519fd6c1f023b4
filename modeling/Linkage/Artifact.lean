import Linkage.ArchiveReader
import Linkage.ClassFile.Basic
import Linkage.Error

/-!
# Artifacts

An artifact is a list of bytes: a class file, or an archive that holds class
files. The classes of an archive come in the order of its entries, without the
ones that stand in for others on newer platforms and without descriptions of
modules. Every entry has to be openable, but only classes are read.
-/

set_option autoImplicit false

namespace Linkage

/-! ## Entries of archives -/

namespace ArchiveEntry

/-- Start of the names of entries that are meant for newer platforms only. -/
def versionedStart : String := "META-INF/versions/"

/-- Whether an entry is read as a class. -/
def isClass (e : ArchiveEntry) : Bool :=
  let cs := e.name.toList
  !e.isDirectory && ".class".toList.isSuffixOf cs && !versionedStart.toList.isPrefixOf cs &&
    !"module-info.class".toList.isSuffixOf cs

/-- Class of an entry. -/
def readClass (e : ArchiveEntry) : Except ArtifactError ClassFile := do
  let contents ← e.contents.mapError (.entryContents e.name)
  (ClassFile.parse contents).mapError (.entryClass e.name)

/-- Classes after one more entry, which has to be openable. -/
def gather (classFiles : List ClassFile) (opened : Except String ArchiveEntry) :
    Except ArtifactError (List ClassFile) := do
  let e ← opened.mapError .archive
  if e.isClass then return classFiles ++ [← e.readClass]
  else return classFiles

end ArchiveEntry

/-! ## Artifacts -/

namespace Artifact

/-- First bytes of an archive. -/
def archiveMagic : List UInt8 := [0x50, 0x4b]

/-- Classes of an archive. -/
def readArchive (reader : ArchiveReader) (bytes : List UInt8) :
    Except ArtifactError (List ClassFile) := do
  let entries ← (reader.entries bytes).mapError .archive
  entries.foldlM ArchiveEntry.gather []

/-- Classes of an artifact, whose kind is told by its first bytes. -/
def readClasses (reader : ArchiveReader) (bytes : List UInt8) : Except Error (List ClassFile) :=
  if archiveMagic.isPrefixOf bytes then (readArchive reader bytes).mapError .malformedArtifact
  else if ClassFile.magic.isPrefixOf bytes then
    match ClassFile.parse bytes with
    | .ok classFile => .ok [classFile]
    | .error e => .error (.malformedArtifact (.classFile e))
  else .error (.malformedArtifact .unrecognised)

end Artifact

end Linkage
