import Linkage.Text.Blank
import Linkage.Text.Pieces

/-!
# Coordinates

Names of artifacts: a group, an artifact of the group, and possibly a version of
the artifact, with `:` between them.
-/

set_option autoImplicit false

namespace Linkage

/-- Name of an artifact, pinned to a version or not. -/
structure Coordinate where
  group : String
  artifact : String
  version : Option String
  deriving DecidableEq, Repr

/-- Text that is no coordinate. -/
structure CoordinateError where
  source : String
  deriving DecidableEq, Repr

namespace Coordinate

/-- Whether a text can be a part of a coordinate: it is not empty and has no white
space. -/
def isPart (cs : List Char) : Bool := !cs.isEmpty && !cs.any Text.isBlank

/-- Coordinate of the pieces of a text. -/
def ofPieces? : List (List Char) → Option Coordinate
  | [group, artifact] => some ⟨String.ofList group, String.ofList artifact, none⟩
  | [group, artifact, version] =>
      some ⟨String.ofList group, String.ofList artifact, some (String.ofList version)⟩
  | _ => none

/-- Coordinate that a text denotes. -/
def parse (source : String) : Except CoordinateError Coordinate :=
  let parts := Text.pieces ':' source.toList
  match ofPieces? parts with
  | some c => if parts.all isPart then .ok c else .error ⟨source⟩
  | none => .error ⟨source⟩

/-- The coordinate, pinned to a version. -/
def withVersion (c : Coordinate) (version : String) : Coordinate :=
  { c with version := some version }

/-- Whether the coordinate covers the other one. Without a version it covers every
version of its artifact. -/
def covers (pattern c : Coordinate) : Bool :=
  pattern.group == c.group && pattern.artifact == c.artifact &&
    (pattern.version.isNone || pattern.version == c.version)

/-- Coordinates are ordered by group, artifact and version. A coordinate without a
version comes before all versions of its artifact. -/
instance : Ord Coordinate :=
  ⟨fun a b =>
    ((compare a.group b.group).then (compare a.artifact b.artifact)).then
      (compare a.version b.version)⟩

/-- Text of a coordinate. -/
def render (c : Coordinate) : String :=
  c.group ++ ":" ++ c.artifact ++
    match c.version with
    | none => ""
    | some version => ":" ++ version

instance : ToString Coordinate := ⟨render⟩

end Coordinate

end Linkage
