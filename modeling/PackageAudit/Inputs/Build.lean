/-
Building a model from files, directories and archives.

Inputs are looked up first: a path that leads nowhere, or to a file that is nothing of use,
ends the build.  Then each is read.  A class file that was named itself must be valid; one that
was met in a directory or an archive is left out if it is not.  The format of archives is given;
the program reads zip archives.
-/
import PackageAudit.Archive.Zip
import PackageAudit.Configuration.Basic
import PackageAudit.Files
import PackageAudit.Inputs.Archive
import PackageAudit.Model.Assemble

namespace PackageAudit

/-- Why a model cannot be built. -/
inductive BuildError where
  | unreadable (path : String) (cause : FileError)
  | invalidClass (path : String) (cause : DecodeError)
  | invalidArchive (path : String) (reason : String)
  | unsupported (path : String)
  /-- More classes and packages than positions can tell apart. -/
  | tooLarge (count : Nat)
  deriving DecidableEq, Repr

namespace BuildError

/-- The message that reports an error. -/
def message : BuildError → String
  | .unreadable path cause => "cannot read " ++ path ++ ": " ++ cause.message
  | .invalidClass path cause => "cannot decode " ++ path ++ ": " ++ cause.message
  | .invalidArchive path reason => "cannot open archive " ++ path ++ ": " ++ reason
  | .unsupported path => "unsupported input " ++ path
  | .tooLarge count => "too many classes to index: " ++ Text.decimal count

/-- The code of an error in diagnostics. -/
def code : BuildError → String
  | .unreadable _ _ => "code_assert::build::io"
  | .invalidClass _ _ => "code_assert::build::decode"
  | .invalidArchive _ _ => "code_assert::build::archive"
  | .unsupported _ => "code_assert::build::unsupported"
  | .tooLarge _ => "code_assert::build::too_large"

/-- Advice on an error. -/
def help? : BuildError → Option String
  | .unreadable _ _ => none
  | .invalidClass _ _ =>
    some ("class files found inside directories are skipped instead; "
      ++ "name the directory to tolerate broken files")
  | .invalidArchive _ _ => none
  | .unsupported _ =>
    some ("inputs are directories, .class files, jar/zip/war/ear archives "
      ++ "and .java/.kt sources")
  | .tooLarge _ => some "split the inputs into several smaller runs"

end BuildError

/-- A file that is to be read, with its content.  `named` says whether its path was given, and not
found in a directory. -/
structure InputFile where
  path : String
  kind : InputKind
  named : Bool
  data : List UInt8
  deriving DecidableEq, Repr

namespace InputFile

/-- The files that a path stands for: all files of use below a directory, or a single file. -/
def discover (files : Files) (languages : List Language) (path : String) :
    Except BuildError (List InputFile) :=
  match files.get path with
  | .error cause => .error (.unreadable path cause)
  | .ok (.directory _) =>
    match files.walk path with
    | .error cause => .error (.unreadable path cause)
    | .ok found =>
      .ok (found.filterMap fun (found, data) =>
        (InputKind.ofPath? languages found).map fun kind => ⟨found, kind, false, data⟩)
  | .ok (.file data) =>
    match InputKind.ofPath? languages path with
    | some kind => .ok [⟨path, kind, true, data⟩]
    | none => .error (.unsupported path)

/-- What a class file contributes. -/
def readClass (input : InputFile) : Except BuildError Contents :=
  match ClassRecord.ofBytes input.data with
  | .ok record => .ok (.ofClass record)
  | .error cause =>
    if input.named then .error (.invalidClass input.path cause)
    else .ok (.ofSkipped input.path cause.message)

/-- What an archive contributes. -/
def readArchive (format : ArchiveFormat) (input : InputFile) : Except BuildError Contents :=
  match format.entries input.data with
  | .ok entries => .ok ((format.contents input.path entries).getD {})
  | .error reason => .error (.invalidArchive input.path reason)

/-- What a source file contributes. -/
def readSource (input : InputFile) (language : Language) : Contents :=
  .ofSource {
    directory := (Path.parent? input.path).getD ""
    fileName := (Path.fileName? input.path).getD ""
    counts := Source.classify language (Text.Utf8.decodeLossy input.data) }

/-- What a file contributes. -/
def read (format : ArchiveFormat) (input : InputFile) : Except BuildError Contents :=
  match input.kind with
  | .classFile => input.readClass
  | .archive => input.readArchive format
  | .source language => .ok (input.readSource language)

end InputFile

namespace Contents

/-- A bound for the classes and for the packages of a model: each is a class that was read, a
mentioned class, or the package of one of them. -/
def bound (contents : Contents) : Nat :=
  contents.classes.foldl (fun n record => n + record.references.length)
    (contents.classes.length + contents.sources.length)

/-- Checks that 32-bit positions are enough. -/
def checkCapacity (contents : Contents) : Except BuildError Unit :=
  if contents.bound ≤ greatestPosition then .ok ()
  else .error (.tooLarge (Nat.min contents.bound 18446744073709551615))

end Contents

/-- Reads all inputs and builds the model, with archives of a given format. -/
def ModelSettings.buildWith (format : ArchiveFormat) (settings : ModelSettings) (files : Files) :
    Except BuildError BuildOutcome := do
  let inputs ← settings.inputs.mapM (InputFile.discover files settings.languages)
  let parts ← inputs.flatten.mapM (InputFile.read format)
  let contents := Contents.concat parts
  contents.checkCapacity
  let filter := PackageFilter.ofStems settings.ignorePackages settings.mergePackages
  return ⟨Model.assemble filter contents.classes contents.sources, contents.skipped⟩

/-- Reads all inputs and builds the model. -/
def ModelSettings.build (settings : ModelSettings) (files : Files) :
    Except BuildError BuildOutcome :=
  settings.buildWith Zip.format files

end PackageAudit
