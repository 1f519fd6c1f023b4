import Linkage.Text.Blank
import Linkage.Text.Lowercase
import Linkage.Text.Pieces

/-!
# Draft versions

Versions of unfinished builds are told by their text: by words that stand in it,
such as `alpha` or `snapshot`, and by a commit hash at its end. Case makes no
difference. A filter of versions refuses drafts, versions that are skipped by
name and texts that do not look like a version.
-/

set_option autoImplicit false

namespace Linkage

/-! ## Markers -/

/-- What shows that a version is a draft: any of the markers, which are in
lowercase, or a commit hash of at least the given number of digits. The number
zero turns the rule about hashes off. -/
structure DraftMarkers where
  markers : List String
  commitHashLength : Nat
  deriving DecidableEq, Repr

/-- What shows that one version is a draft. -/
inductive DraftSign where
  | marker (text : String)
  | commitHash
  deriving DecidableEq, Repr

/-- Text of a sign. -/
def DraftSign.text : DraftSign → String
  | .marker text => text
  | .commitHash => "commit hash"

/-- Separators in front of a commit hash. -/
def isHashSeparator (c : Char) : Bool := c == '-' || c == '+' || c == '_'

/-- Lowercase hexadecimal digits. -/
def isHexDigit (c : Char) : Bool := c.isDigit || ('a' ≤ c && c ≤ 'f')

/-- Whether a lowercase text ends in a separator and at least so many hexadecimal
digits. -/
def endsInHash (length : Nat) (text : List Char) : Bool :=
  match text.reverse.dropWhile isHexDigit with
  | [] => false
  | c :: _ => isHashSeparator c && length ≤ (text.reverse.takeWhile isHexDigit).length

namespace DraftMarkers

/-- No markers and no rule about hashes. -/
def empty : DraftMarkers := ⟨[], 0⟩

/-- One more marker. -/
def addMarker (d : DraftMarkers) (marker : String) : DraftMarkers :=
  { d with markers := d.markers ++ [Text.lowercase marker] }

/-- Another least length of a commit hash. -/
def withCommitHashLength (d : DraftMarkers) (length : Nat) : DraftMarkers :=
  { d with commitHashLength := length }

/-- Markers that are common among publishers. -/
def standard : DraftMarkers :=
  ⟨["rc", ".cr", "alpha", "beta", "-b", ".m", "-m", "-dev", "-ea", "-atlassian-",
    "public_draft", "snapshot", "preview"], 6⟩

instance : Inhabited DraftMarkers := ⟨standard⟩

/-- First sign that the version is a draft: the markers come in their order, the
hash comes last. -/
def sign? (d : DraftMarkers) (version : String) : Option DraftSign :=
  let text := Text.lowercaseChars version.toList
  match d.markers.find? fun marker => Text.isInside marker.toList text with
  | some marker => some (.marker marker)
  | none =>
      if d.commitHashLength ≠ 0 && endsInHash d.commitHashLength text then some .commitHash
      else none

/-- Whether the version is a draft. -/
def isDraft (d : DraftMarkers) (version : String) : Bool := (d.sign? version).isSome

end DraftMarkers

/-! ## Filter -/

/-- Filter of version texts. The skipped versions are in lowercase. -/
structure VersionFilter where
  markers : DraftMarkers
  skipped : List String
  deriving DecidableEq, Repr

/-- Texts that look like a version: they hold a digit and neither white space nor
control characters. The empty text has no digit. -/
def looksLikeVersion (text : String) : Bool :=
  !text.toList.any (fun c => Text.isBlank c || Text.isControl c) && text.toList.any Char.isDigit

namespace VersionFilter

/-- Filter that refuses drafts and the given versions. -/
def ofMarkers (markers : DraftMarkers) (skip : List String) : VersionFilter :=
  ⟨markers, skip.map Text.lowercase⟩

/-- Whether the filter lets the version pass. -/
def accepts (f : VersionFilter) (version : String) : Bool :=
  looksLikeVersion version && !f.skipped.contains (Text.lowercase version) &&
    !f.markers.isDraft version

end VersionFilter

end Linkage
