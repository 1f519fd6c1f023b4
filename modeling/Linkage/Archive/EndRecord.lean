import Linkage.Bytes

/-!
# End records

The end record of an archive stands behind its directory, with a comment after it.
It counts the entries and gives the offset of the directory, but bytes may have
been put in front of the archive, so the directory is looked for from that offset
on. Bytes that look like an end record may also stand in contents or in a comment:
every such place is a candidate, and the later ones are preferred.
-/

set_option autoImplicit false

namespace Linkage.Archive

/-- Number in bytes of a header, the least significant one first. -/
def numberAt (bytes : List UInt8) (position width : Nat) : Nat :=
  ofBigEndian ((bytes.drop position).take width).reverse

/-- First bytes of an end record. -/
def endMagic : List UInt8 := [0x50, 0x4b, 0x05, 0x06]

/-- First bytes of a header of the directory. -/
def headerMagic : List UInt8 := [0x50, 0x4b, 0x01, 0x02]

/-- What an end record of an archive says, and where it stands. An archive may be
split over several disks: the entries of this one are counted on their own. -/
structure EndRecord where
  position : Nat
  disk : Nat
  directoryDisk : Nat
  entriesHere : Nat
  entryCount : Nat
  directoryOffset : Nat
  deriving DecidableEq, Repr

namespace EndRecord

/-- End record at the start of the bytes, which stand at a position among so many
bytes. Its comment has to end before they do. -/
def at? (total position : Nat) (bytes : List UInt8) : Option EndRecord :=
  if endMagic.isPrefixOf bytes && position + 22 + numberAt bytes 20 2 ≤ total then
    some
      { position := position
        disk := numberAt bytes 4 2
        directoryDisk := numberAt bytes 6 2
        entriesHere := numberAt bytes 8 2
        entryCount := numberAt bytes 10 2
        directoryOffset := numberAt bytes 16 4 }
  else none

/-- End records in the bytes, which stand at a position among so many bytes, in
front of the ones that have been found before them: the last one comes first. -/
def lastFirst (total : Nat) (found : List EndRecord) (position : Nat) :
    List UInt8 → List EndRecord
  | [] => found
  | b :: bytes =>
      lastFirst total ((at? total position (b :: bytes)).toList ++ found) (position + 1) bytes

/-- Number of bytes in front of the first header of a directory. -/
def headerDistance? (distance : Nat) : List UInt8 → Option Nat
  | [] => none
  | b :: bytes =>
      if headerMagic.isPrefixOf (b :: bytes) then some distance
      else headerDistance? (distance + 1) bytes

/-- Number of bytes in front of the archive proper, by which all of its offsets are
off. The first header between the offset of the directory and the record tells it;
an archive without entries has none and ends its directory at the record. -/
def shift? (r : EndRecord) (bytes : List UInt8) : Option Nat :=
  if r.entryCount = 0 then some (r.position - r.directoryOffset)
  else headerDistance? 0 ((bytes.take r.position).drop r.directoryOffset)

end EndRecord

end Linkage.Archive
