import Linkage.Coordinate

/-!
# Repositories

Where artifacts come from. A repository lists the versions of an artifact and hands
out an artifact with all that it needs at run time; it can fail at both. Any two
functions make a repository; a listing of coordinates with their artifacts is one
way to give them.
-/

set_option autoImplicit false

namespace Linkage

/-- Artifact with the coordinate that it was found under. -/
structure FetchedArtifact where
  coordinate : Coordinate
  bytes : List UInt8
  deriving DecidableEq

/-- What a repository says when it cannot answer. -/
structure RepositoryFailure where
  message : String
  deriving DecidableEq, Repr

/-- Source of artifacts. -/
structure Repository where
  /-- Versions of an artifact of a group, in any order and possibly repeated. -/
  candidates : String → String → Except RepositoryFailure (List String)
  /-- The artifact of a coordinate, followed by the artifacts that it depends on. -/
  fetch : Coordinate → Except RepositoryFailure (List FetchedArtifact)

/-- Listing of coordinates with their artifacts. The artifacts of a coordinate can
be lost. -/
structure RepositoryListing where
  rows : List (Coordinate × Option (List FetchedArtifact))

namespace RepositoryListing

/-- Versions that are listed for an artifact. It has to be listed at all. -/
def candidates (l : RepositoryListing) (group artifact : String) :
    Except RepositoryFailure (List String) :=
  let coordinates := (l.rows.map Prod.fst).filter fun c =>
    c.group == group && c.artifact == artifact
  if coordinates.isEmpty then .error ⟨"no versions of " ++ group ++ ":" ++ artifact⟩
  else .ok (coordinates.filterMap Coordinate.version)

/-- Artifacts of the first row of the coordinate. -/
def fetch (l : RepositoryListing) (c : Coordinate) :
    Except RepositoryFailure (List FetchedArtifact) :=
  match l.rows.find? fun row => row.1 == c with
  | some (_, some artifacts) => .ok artifacts
  | _ => .error ⟨c.render ++ " not found"⟩

/-- Repository that answers from the listing. -/
def repository (l : RepositoryListing) : Repository := ⟨l.candidates, l.fetch⟩

end RepositoryListing

end Linkage
