/-!
# Reading archives

Archives are read by a reader, which lists their entries. All that is made of archives is
made of what a reader hands out, and any reader will do.
-/

set_option autoImplicit false

namespace Linkage

/-- Entry of an archive, once it has been opened. -/
structure ArchiveEntry where
  name : String
  isDirectory : Bool
  /-- Contents of the entry up to their end, or what is wrong with them. -/
  contents : Except String (List UInt8)

/-- Reader of archives. It says in words what is wrong with an archive. -/
structure ArchiveReader where
  /-- Entries of an archive in order. Each one can be opened, or it is told why it
  cannot be; a list of bytes that is no archive has no entries at all. -/
  entries : List UInt8 → Except String (List (Except String ArchiveEntry))

end Linkage
