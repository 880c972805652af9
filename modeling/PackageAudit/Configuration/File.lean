/-
Configurations from files.
-/
import PackageAudit.Configuration.Parse
import PackageAudit.Files

namespace PackageAudit

/-- Why a configuration file gives no configuration. -/
inductive ConfigurationFileError where
  | unreadable (path : String) (cause : FileError)
  | rejected (cause : ConfigurationError)
  deriving DecidableEq, Repr

/-- The message that reports an error. -/
def ConfigurationFileError.message : ConfigurationFileError → String
  | .unreadable path cause => "Failed to read config file " ++ path ++ ": " ++ cause.message
  | .rejected cause => cause.message

/-- Reads a configuration file. -/
def Configuration.read (files : Files) (path : String) :
    Except ConfigurationFileError Configuration :=
  match files.readText path with
  | .error cause => .error (.unreadable path cause)
  | .ok text =>
    match Configuration.parse text with
    | .ok config => .ok config
    | .error cause => .error (.rejected cause)

end PackageAudit
