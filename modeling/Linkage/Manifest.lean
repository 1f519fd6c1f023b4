import Linkage.Ascending
import Linkage.Reference

/-!
# Manifests

Everything that a module asks of a library. A manifest has one entry for each
key, in ascending order of the keys; the entry holds the joined reference and the
classes that make it.
-/

set_option autoImplicit false

namespace Linkage

/-- Reference with the classes that make it, in ascending order. -/
structure Manifest.Entry where
  reference : Reference
  sources : List BinaryName
  deriving DecidableEq

/-- Entries by their keys, in ascending order. -/
structure Manifest where
  rows : List (String × Manifest.Entry)
  deriving DecidableEq

namespace Manifest

/-- Joins another entry of the same key. -/
def Entry.join (a b : Entry) : Entry :=
  ⟨a.reference.join b.reference, Ascending.union a.sources b.sources⟩

/-- Manifest without entries. -/
def empty : Manifest := ⟨[]⟩

instance : Inhabited Manifest := ⟨empty⟩

/-- Puts an entry into the place of a key. An entry that is there already is
joined with it. -/
def place (key : String) (entry : Entry) : List (String × Entry) → List (String × Entry)
  | [] => [(key, entry)]
  | row :: rows =>
      match compare key row.1 with
      | .lt => (key, entry) :: row :: rows
      | .eq => (row.1, row.2.join entry) :: rows
      | .gt => row :: place key entry rows

/-- One more entry. -/
def insert (m : Manifest) (entry : Entry) : Manifest := ⟨place entry.reference.key entry m.rows⟩

/-- One more reference that a class makes. -/
def add (m : Manifest) (reference : Reference) (source : BinaryName) : Manifest :=
  m.insert ⟨reference, [source]⟩

/-- Entries in ascending order of their keys. -/
def entries (m : Manifest) : List Entry := m.rows.map Prod.snd

/-- References in ascending order of their keys. -/
def references (m : Manifest) : List Reference := m.entries.map Entry.reference

/-- All entries of another manifest, too. -/
def merge (m other : Manifest) : Manifest := other.entries.foldl insert m

/-- Entry of a key. -/
def get? (m : Manifest) (key : String) : Option Entry :=
  (m.rows.find? fun row => row.1 == key).map Prod.snd

/-- Number of entries. -/
def size (m : Manifest) : Nat := m.rows.length

/-- Whether there are no entries. -/
def isEmpty (m : Manifest) : Bool := m.rows.isEmpty

end Manifest

end Linkage
