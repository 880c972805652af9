/-
Classes in archives.

The classes of an archive come in the order of its entries, with those of an archive inside
it where that archive stands.  An entry that cannot be opened, read or decoded is left out
and reported, so that reading goes on whatever an archive holds.

What an archive is, and what is in it, is a matter of its format, which is given.
-/
import PackageAudit.Archive.Basic
import PackageAudit.Inputs.Contents
import PackageAudit.Inputs.Kind

namespace PackageAudit

/-- The location of an entry of an archive. -/
def entryLocation (archive entry : String) : String := archive ++ "!/" ++ entry

/-- What comes of an entry of an archive: contents, or the entries of an archive that are to be read
in their turn. -/
inductive EntryReading where
  | done (contents : Contents)
  | archive (location : String) (entries : List ArchiveEntry)
  deriving DecidableEq, Repr

/-- The class in a class file of an archive, or an entry that is left out. -/
def classContents (location : String) (data : List UInt8) : Contents :=
  match ClassRecord.ofBytes data with
  | .ok record => .ofClass record
  | .error e => .ofSkipped location e.message

/-- Reads an entry of an archive, given its position; `location` is that of the archive. -/
def ArchiveFormat.reading (format : ArchiveFormat) (location : String)
    (placed : ArchiveEntry × Nat) : EntryReading :=
  match placed.1 with
  | .inaccessible reason =>
    .done (.ofSkipped (entryLocation location ("#" ++ Text.decimal placed.2)) reason)
  | .folder => .done {}
  | .unreadable name reason =>
    match EntryKind.ofName? name with
    | none => .done {}
    | some _ => .done (.ofSkipped (entryLocation location name) reason)
  | .file name data =>
    match EntryKind.ofName? name with
    | none => .done {}
    | some .classFile => .done (classContents (entryLocation location name) data)
    | some .archive =>
      match format.entries data with
      | .error reason => .done (.ofSkipped (entryLocation location name) reason)
      | .ok entries => .archive (entryLocation location name) entries

/-- What a reading contributes, once the archives in it are read in their turn.  Packed data can
unpack to an archive that holds itself, and reading that comes to no end. -/
def EntryReading.contents (format : ArchiveFormat) : EntryReading → Option Contents
  | .done contents => some contents
  | .archive location entries => do
    let parts ← entries.zipIdx.mapM fun placed =>
      format.reading location placed |>.contents format
    return Contents.concat parts
partial_fixpoint

/-- What the entries of an archive contribute. -/
def ArchiveFormat.contents (format : ArchiveFormat) (location : String)
    (entries : List ArchiveEntry) : Option Contents :=
  (EntryReading.archive location entries).contents format

end PackageAudit
