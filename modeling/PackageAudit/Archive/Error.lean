/-
What can be wrong with an archive, and the messages that say so.
-/
namespace PackageAudit

/-- Why an archive, or an entry of one, cannot be opened. -/
inductive ArchiveError where
  /-- The data ends inside a record. -/
  | shortRead
  | tooShort
  | noDirectoryEnd
  | badDirectoryBounds
  | badDirectoryEntry
  | badLocalHeader
  | headerTooFar
  | noRoomForLargeEnd
  | noLargeDirectoryEnd
  | missingStrongEncryption
  | unknownVendor
  | unknownVendorVersion
  | unknownStrength
  | severalDisks
  | passwordRequired
  | unknownMethod
  | badStrongEncryptionLength
  deriving DecidableEq, Repr

namespace ArchiveError

/-- A fault of the archive. -/
def invalid (fault : String) : String := "invalid Zip archive: " ++ fault

/-- Something that is not supported. -/
def unsupported (feature : String) : String := "unsupported Zip archive: " ++ feature

/-- The message that reports an error. -/
def message : ArchiveError → String
  | .shortRead => "failed to fill whole buffer"
  | .tooShort => invalid "Invalid zip header"
  | .noDirectoryEnd => invalid "Could not find central directory end"
  | .badDirectoryBounds => invalid "Invalid central directory size or offset"
  | .badDirectoryEntry => invalid "Invalid Central Directory header"
  | .badLocalHeader => invalid "Invalid local file header"
  | .headerTooFar => invalid "Archive header is too large"
  | .noRoomForLargeEnd => invalid "File cannot contain ZIP64 central directory end"
  | .noLargeDirectoryEnd => invalid "Could not find ZIP64 central directory end"
  | .missingStrongEncryption => invalid "AES encryption without AES extra data field"
  | .unknownVendor => invalid "Invalid AES vendor"
  | .unknownVendorVersion => invalid "Invalid AES vendor version"
  | .unknownStrength => invalid "Invalid AES encryption strength"
  | .severalDisks => unsupported "Support for multi-disk files is not implemented"
  | .passwordRequired => unsupported "Password required to decrypt file"
  | .unknownMethod => unsupported "Compression method not supported"
  | .badStrongEncryptionLength => unsupported "AES extra data field has an unsupported length"

end ArchiveError

/-- Why deflated data cannot be decompressed. -/
inductive DeflateFault where
  /-- The data ends before its last block does. -/
  | incomplete
  /-- The data breaks a rule of the format. -/
  | corrupt
  deriving DecidableEq, Repr

/-- The message that reports a fault. -/
def DeflateFault.message : DeflateFault → String
  | .incomplete => "incomplete deflate stream"
  | .corrupt => "corrupt deflate stream"

/-- Why the content of an entry cannot be read. -/
inductive ContentError where
  | badChecksum
  | deflate (fault : DeflateFault)
  deriving DecidableEq, Repr

/-- The message that reports an error. -/
def ContentError.message : ContentError → String
  | .badChecksum => "Invalid checksum"
  | .deflate fault => fault.message

end PackageAudit
