/-!
# Faults of archives

Ways in which an archive, one of its entries or the contents of an entry cannot be
opened, and the wording of each. Whether contents are readable is told apart from
all else, since only the contents of entries that are read have to be.
-/

set_option autoImplicit false

namespace Linkage.Archive

/-- Ways in which an archive or one of its entries cannot be opened. -/
inductive Error where
  | noDirectory
  | splitArchive
  | badDirectory
  | badExtraField
  | badLocalHeader
  | encrypted
  | unsupportedMethod (method : Nat)
  deriving DecidableEq, Repr

/-- What is wrong with the archive. -/
def Error.message : Error → String
  | .noDirectory => "invalid Zip archive: Could not find EOCD"
  | .splitArchive => "unsupported Zip archive: Support for multi-disk files is not implemented"
  | .badDirectory => "invalid Zip archive: Invalid Central Directory header"
  | .badExtraField => "invalid Zip archive: CRC32 checksum failed on Unicode extra field"
  | .badLocalHeader => "invalid Zip archive: Invalid local file header"
  | .encrypted => "unsupported Zip archive: Password required to decrypt file"
  | .unsupportedMethod method => "compression method not supported: " ++ toString method

/-- Ways in which the contents of an entry cannot be read. -/
inductive ContentsError where
  | badChecksum
  | corrupt
  deriving DecidableEq, Repr

/-- What is wrong with the contents. -/
def ContentsError.message : ContentsError → String
  | .badChecksum => "Invalid checksum"
  | .corrupt => "corrupt deflate stream"

end Linkage.Archive
