import Linkage.Text.Lowercase
import Linkage.Version.Token

/-!
# Versions

A version is a text together with its normalised items. Versions are ordered by
their items, so different texts can be equal as versions: `1`, `1.0` and `1-ga`
are. The order of versions is the one of `Item.compareLists`.
-/

set_option autoImplicit false

namespace Linkage

/-- Normalised items of a version text. -/
def Version.itemsOf (text : String) : List Version.Item :=
  Version.Item.normalizeAll (Version.Token.items (Version.Token.scan []
    (Text.lowercaseChars text.toList)))

/-- Version text with its items. -/
structure Version where
  text : String
  items : List Version.Item
  items_eq : items = Version.itemsOf text

namespace Version

/-- Version with the given text; every text is a version. -/
def ofText (text : String) : Version := ⟨text, itemsOf text, rfl⟩

instance : Ord Version := ⟨fun a b => Item.compareLists a.items b.items⟩

/-- Versions are equal if they compare equal. -/
instance : BEq Version := ⟨fun a b => compare a b == .eq⟩

instance : Inhabited Version := ⟨ofText ""⟩

instance : ToString Version := ⟨Version.text⟩

/-- Text that shows how the version is taken apart. -/
def describe (v : Version) : String := v.text ++ " [" ++ Item.describeAll v.items ++ "]"

/-- The elements in ascending order of their versions. Elements with equal
versions keep their order. -/
def sortBy {α : Type} (version : α → Version) (xs : List α) : List α :=
  (xs.map fun x => (version x, x)).mergeSort (fun a b => (compare a.1 b.1).isLE)
    |>.map Prod.snd

end Version

end Linkage
