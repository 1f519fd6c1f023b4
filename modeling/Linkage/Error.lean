import Linkage.ClassFile.Error
import Linkage.Repository
import Linkage.Version.Range

/-!
# Errors

Everything that can go wrong outside of a single class file or text, with messages
that say what it went wrong with.
-/

set_option autoImplicit false

namespace Linkage

/-- Ways in which an artifact is malformed. What is wrong with an archive or with the
contents of an entry is told by the reader of archives. -/
inductive ArtifactError where
  | unrecognised
  | classFile (error : ClassError)
  | archive (message : String)
  | entryContents (name message : String)
  | entryClass (name : String) (error : ClassError)
  | definition (artifact : Nat) (error : ClassError)
  deriving DecidableEq, Repr

/-- What is wrong with the artifact. -/
def ArtifactError.message : ArtifactError → String
  | .unrecognised => "neither a jar nor a class file"
  | .classFile error => "class file: " ++ error.message
  | .archive message => message
  | .entryContents name message => name ++ ": " ++ message
  | .entryClass name error => name ++ ": " ++ error.message
  | .definition artifact error => "artifact #" ++ toString artifact ++ ": " ++ error.message

/-- Ways in which a request fails. -/
inductive Error where
  | malformedClass (error : ClassError)
  | malformedArtifact (error : ArtifactError)
  | repository (failure : RepositoryFailure)
  | invalidRange (error : RangeError)
  | invalidCoordinate (error : CoordinateError)
  | invalidName (error : NameError)
  deriving DecidableEq, Repr

/-- What went wrong. -/
def Error.message : Error → String
  | .malformedClass error => "malformed class file: " ++ error.message
  | .malformedArtifact error => "malformed artifact: " ++ error.message
  | .repository failure => "artifact resolution failed: " ++ failure.message
  | .invalidRange error => "invalid version range: " ++ error.message
  | .invalidCoordinate error => "invalid artifact coordinate: " ++ error.source
  | .invalidName error => "invalid name: " ++ error.message

end Linkage
