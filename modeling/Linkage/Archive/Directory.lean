import Linkage.Archive.Entry

/-!
# Archives

Archives of named entries with a directory, which is found by its end record. A
candidate for the end record counts only if it leads to a directory with as many
headers as it says; else an earlier one is tried.
-/

set_option autoImplicit false

namespace Linkage

/-- Archive with the entries of its directory. -/
structure Archive where
  bytes : List UInt8
  entries : List Archive.Entry

namespace Archive

/-- Entries of the given number of headers of a directory, in an archive whose
offsets are off by a shift. -/
def entriesOf (shift : Nat) : Nat → List UInt8 → Except Error (List Entry)
  | 0, _ => .ok []
  | count + 1, bytes =>
      match header? bytes with
      | none => .error .badDirectory
      | some header => do
          let e ← Entry.ofHeader shift header
          return e :: (← entriesOf shift count (bytes.drop header.length))

/-- One more entry. An entry whose name has the bytes of an earlier one's takes its
place. -/
def addEntry : List Entry → Entry → List Entry
  | [], e => [e]
  | d :: ds, e =>
      if d.name.bytes = e.name.bytes then e :: ds else d :: addEntry ds e

/-- Archive of a list of bytes with the given end record. -/
def ofEndRecord (bytes : List UInt8) (record : EndRecord) : Except Error Archive :=
  match record.shift? bytes with
  | none => .error .noDirectory
  | some shift =>
      if record.disk ≠ record.directoryDisk then .error .splitArchive
      else
        (entriesOf shift record.entriesHere (bytes.drop (record.directoryOffset + shift))).map
          fun entries => ⟨bytes, entries.foldl addEntry []⟩

/-- Archive of a list of bytes with the first one of some end records that leads to
a directory. The fault is that of the last one that leads to some header. -/
def ofEndRecords (bytes : List UInt8) : List EndRecord → Except Error Archive
  | [] => .error .noDirectory
  | record :: records =>
      match ofEndRecord bytes record with
      | .ok a => .ok a
      | .error fault =>
          match ofEndRecords bytes records with
          | .error .noDirectory => .error fault
          | earlier => earlier

/-- Archive of a list of bytes. -/
def ofBytes (bytes : List UInt8) : Except Error Archive :=
  ofEndRecords bytes (EndRecord.lastFirst bytes.length [] 0 bytes)

end Archive

end Linkage
