import Linkage.Archive.Crc32
import Linkage.Archive.EndRecord
import Linkage.Archive.Error
import Linkage.Archive.Inflate
import Linkage.Text.CodePage
import Linkage.Text.Utf8

/-!
# Entries of archives

A header of the directory says of an entry how its contents are compressed, how
long they are, what their checksum is and where its local header stands, behind
which the contents begin. The local header may stand anywhere in the archive, also
behind the directory, and is looked at when the entry is opened. The name of an
entry is bytes in UTF-8 or in the code page, and a field of the extra data of the
header may put another one in its place.
-/

set_option autoImplicit false

namespace Linkage.Archive

/-! ## Extra data -/

/-- Field of the extra data of a header. -/
structure ExtraField where
  kind : Nat
  data : List UInt8
  deriving DecidableEq, Repr

/-- Fields of the extra data of a header. Bytes at the end that hold no whole field
are padding. -/
def extraFields (bytes : List UInt8) : List ExtraField :=
  match bytes with
  | kindLow :: kindHigh :: sizeLow :: sizeHigh :: rest =>
      let size := numberAt [sizeLow, sizeHigh] 0 2
      let data := rest.take size
      if data.length = size then
        ⟨numberAt [kindLow, kindHigh] 0 2, data⟩ :: extraFields (rest.drop size)
      else []
  | _ => []
termination_by bytes.length
decreasing_by simp only [List.length_drop, List.length_cons]; omega

/-! ## Names -/

/-- Name of an entry: its bytes, by which entries are told apart, and its text. -/
structure EntryName where
  bytes : List UInt8
  text : String
  deriving DecidableEq, Repr

namespace EntryName

/-- Name of the given bytes, which are in UTF-8 or in the code page. -/
def ofBytes (isUtf8 : Bool) (bytes : List UInt8) : EntryName :=
  ⟨bytes, if isUtf8 then Text.ofUtf8 bytes else Text.ofCodePage bytes⟩

/-- Whether it is the name of a directory, which ends in a slash. -/
def isDirectory (name : EntryName) : Bool :=
  name.text.toList.getLast? == some '/' || name.text.toList.getLast? == some '\\'

/-- Kind of the field that gives another name. -/
def fieldKind : Nat := 0x7075

/-- Name after a field of the extra data. The field of another name holds a
version, the checksum of the bytes that it takes the place of, and the name in
UTF-8. -/
def afterField (name : EntryName) (field : ExtraField) : Except Error EntryName :=
  if field.kind = fieldKind then
    let bytes := field.data.drop 5
    let text := Text.ofUtf8 bytes
    if 5 ≤ field.data.length ∧ numberAt field.data 1 4 = (crc32 name.bytes).toNat ∧
        text.toUTF8.data.toList = bytes then
      .ok ⟨bytes, text⟩
    else .error .badExtraField
  else .ok name

end EntryName

/-! ## Headers -/

/-- Header at the start of the bytes of a directory. -/
def header? (bytes : List UInt8) : Option (List UInt8) :=
  let size := 46 + numberAt bytes 28 2 + numberAt bytes 30 2 + numberAt bytes 32 2
  let header := bytes.take size
  if headerMagic.isPrefixOf header ∧ header.length = size then some header else none

/-- Name in a header of the directory. -/
def nameOfHeader (header : List UInt8) : Except Error EntryName :=
  let size := numberAt header 28 2
  let name := EntryName.ofBytes ((numberAt header 8 2).testBit 11) ((header.drop 46).take size)
  (extraFields ((header.drop (46 + size)).take (numberAt header 30 2))).foldlM
    EntryName.afterField name

/-! ## Entries -/

/-- Entry of an archive, with the position of its local header and the size of its
compressed contents. -/
structure Entry where
  name : EntryName
  isEncrypted : Bool
  method : Nat
  checksum : UInt32
  position : Nat
  size : Nat
  deriving DecidableEq, Repr

/-- First bytes of a local header. -/
def localMagic : List UInt8 := [0x50, 0x4b, 0x03, 0x04]

/-- Bytes behind the local header that stands at a position of an archive. -/
def afterLocalHeader (bytes : List UInt8) (position : Nat) : Except Error (List UInt8) :=
  let header := bytes.drop position
  if localMagic.isPrefixOf header ∧ (header.take 30).length = 30 then
    .ok (header.drop (30 + numberAt header 26 2 + numberAt header 28 2))
  else .error .badLocalHeader

namespace Entry

/-- Entry of a header of the directory, in an archive whose offsets are off by a
shift. -/
def ofHeader (shift : Nat) (header : List UInt8) : Except Error Entry :=
  (nameOfHeader header).map fun name =>
    { name := name
      isEncrypted := (numberAt header 8 2).testBit 0
      method := numberAt header 10 2
      checksum := UInt32.ofNat (numberAt header 16 4)
      position := shift + numberAt header 42 4
      size := numberAt header 20 4 }

/-- Compressed contents of an entry of an archive with the given bytes. -/
def compressed (e : Entry) (bytes : List UInt8) : Except Error (List UInt8) :=
  if e.isEncrypted then .error .encrypted
  else do
    let contents ← afterLocalHeader bytes e.position
    if e.method = 0 ∨ e.method = 8 then return contents.take e.size
    else .error (.unsupportedMethod e.method)

/-- Contents of an entry, given its compressed contents. -/
def contents (e : Entry) (compressed : List UInt8) : Except ContentsError (List UInt8) :=
  let inflated := if e.method = 8 then inflate compressed else ⟨compressed, none⟩
  if inflated.fault = some .corrupt then .error .corrupt
  else if crc32 inflated.contents = e.checksum then .ok inflated.contents
  else .error .badChecksum

end Entry

end Linkage.Archive
