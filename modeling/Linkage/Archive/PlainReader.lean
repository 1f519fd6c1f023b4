import Linkage.Archive.Directory
import Linkage.ArchiveReader

/-!
# Plain archives

A reader of archives whose entries are stored as they are or deflated, without the
further fields that very large archives need.
-/

set_option autoImplicit false

namespace Linkage.Archive

/-- The entry of an archive with the given bytes, opened. -/
def Entry.opened (e : Entry) (bytes : List UInt8) : Except String ArchiveEntry :=
  match e.compressed bytes with
  | .error fault => .error fault.message
  | .ok compressed =>
      .ok
        { name := e.name.text
          isDirectory := e.name.isDirectory
          contents := (e.contents compressed).mapError ContentsError.message }

/-- Reader of plain archives. -/
def plainReader : ArchiveReader where
  entries bytes :=
    match ofBytes bytes with
    | .error fault => .error fault.message
    | .ok a => .ok (a.entries.map fun e => e.opened a.bytes)

end Linkage.Archive
