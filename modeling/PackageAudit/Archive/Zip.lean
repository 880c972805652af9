/-
Zip archives.

An archive is read from its end: a record there says where the directory lies and how many
entries it has, and each entry of the directory says where its data lies.  Bytes in front of
the archive are passed over.  What is wrong with the directory spoils the archive; what is
wrong with the data of an entry spoils that entry only.
-/
import PackageAudit.Archive.Basic
import PackageAudit.Archive.Crc32
import PackageAudit.Archive.Error
import PackageAudit.Archive.Inflate
import PackageAudit.Text.Cp437
import PackageAudit.Text.Utf8

namespace PackageAudit

/-- How the content of an entry is kept. -/
inductive Storage where
  | stored
  | deflated
  deriving DecidableEq, Repr

/-- A file in an archive, as it is kept there. -/
structure StoredFile where
  name : String
  storage : Storage
  checksum : UInt32
  data : Array UInt8
  deriving DecidableEq, Repr

/-- The content of a file.  Deflated data must be complete; stored data that ends early is taken as
it is.  Then the checksum must be right. -/
def StoredFile.content (file : StoredFile) : Except ContentError (List UInt8) := do
  let content ←
    match file.storage with
    | .stored => .ok file.data
    | .deflated => (Inflate.run file.data).mapError .deflate
  if Crc32.ofBytes content = file.checksum then return content.toList else throw .badChecksum

namespace Zip

/-! ### Records -/

/-- The number in `n` bytes from a position on, the lowest byte first. -/
def field (data : Array UInt8) (position n : Nat) : Except ArchiveError Nat :=
  if position + n ≤ data.size then
    .ok ((data.extract position (position + n)).foldr (fun b value => value * 256 + b.toNat) 0)
  else .error .shortRead

/-- Marks of the records of an archive. -/
def localMark : Nat := 0x04034B50
@[inherit_doc localMark]
def entryMark : Nat := 0x02014B50
@[inherit_doc localMark]
def endMark : Nat := 0x06054B50
@[inherit_doc localMark]
def largeEndMark : Nat := 0x06064B50
@[inherit_doc localMark]
def largeLocatorMark : Nat := 0x07064B50

/-- The value of a field of two bytes that is too small for its number. -/
def overflow16 : Nat := 0xFFFF

/-- The value of a field of four bytes that is too small for its number. -/
def overflow32 : Nat := 0xFFFFFFFF

/-- The record at the end of an archive. -/
structure DirectoryEnd where
  position : Nat
  disk : Nat
  directoryDisk : Nat
  entriesHere : Nat
  entries : Nat
  size : Nat
  offset : Nat
  commentLength : Nat
  deriving DecidableEq, Repr

/-- Whether a field of the record is too small for its number. -/
def DirectoryEnd.overflows (record : DirectoryEnd) : Bool :=
  record.disk == overflow16 || record.directoryDisk == overflow16
    || record.entriesHere == overflow16 || record.entries == overflow16
    || record.size == overflow32 || record.offset == overflow32

/-- Looks for a mark at `n` positions, from `position` down. -/
def findBackwards (data : Array UInt8) (mark : Nat) : Nat → Nat → Option Nat
  | 0, _ => none
  | n + 1, position =>
    match field data position 4 with
    | .ok value =>
      if value = mark then some position else findBackwards data mark n (position - 1)
    | .error _ => none

/-- Reads the record at the end.  It is searched for from the last place where it fits, as far back
as its comment can reach. -/
def directoryEnd (data : Array UInt8) : Except ArchiveError DirectoryEnd := do
  if data.size < 22 then throw .tooShort
  let latest := data.size - 22
  match findBackwards data endMark (Nat.min latest 65535 + 1) latest with
  | none => throw .noDirectoryEnd
  | some position =>
    let commentLength ← field data (position + 20) 2
    if data.size < position + 22 + commentLength then throw .shortRead
    return {
      position
      disk := ← field data (position + 4) 2
      directoryDisk := ← field data (position + 6) 2
      entriesHere := ← field data (position + 8) 2
      entries := ← field data (position + 10) 2
      size := ← field data (position + 12) 4
      offset := ← field data (position + 16) 4
      commentLength }

/-- Where the directory of an archive lies: by how much its offsets are too small, where it starts,
and how many entries it has. -/
structure DirectoryPlace where
  shift : Nat
  start : Nat
  entries : Nat
  deriving DecidableEq, Repr

/-- The place of a directory by the record at the end: it lies right in front of the record. -/
def DirectoryEnd.place (record : DirectoryEnd) : Except ArchiveError DirectoryPlace :=
  if record.position < record.size + record.offset then .error .badDirectoryBounds
  else
    let shift := record.position - record.size - record.offset
    .ok ⟨shift, record.offset + shift, record.entriesHere⟩

/-- Looks for a mark at `n` positions, from `position` up. -/
def findForwards (data : Array UInt8) (mark : Nat) : Nat → Nat → Except ArchiveError (Option Nat)
  | 0, _ => .ok none
  | n + 1, position => do
    if (← field data position 4) = mark then return some position
    else findForwards data mark n (position + 1)

/-- The greatest 64-bit number. -/
def greatest64 : Nat := 0xFFFFFFFFFFFFFFFF

/-- The place of a directory by the record for large archives, which the locator at a position
leads to. -/
def largePlace (data : Array UInt8) (record : DirectoryEnd) (locator : Nat) :
    Except ArchiveError DirectoryPlace := do
  let disk ← field data (locator + 4) 4
  let nominal ← field data (locator + 8) 8
  if !record.overflows && record.disk ≠ disk then throw .severalDisks
  if record.position < 60 then throw .noRoomForLargeEnd
  let latest := record.position - 60
  match ← findForwards data largeEndMark (latest + 1 - nominal) nominal with
  | none => throw .noLargeDirectoryEnd
  | some position =>
    let disk ← field data (position + 16) 4
    let directoryDisk ← field data (position + 20) 4
    let entries ← field data (position + 32) 8
    let offset ← field data (position + 48) 8
    if disk ≠ directoryDisk then throw .severalDisks
    let shift := position - nominal
    if greatest64 < offset + shift then throw .badDirectoryBounds
    return ⟨shift, offset + shift, entries⟩

/-- Where the directory lies. -/
def directoryPlace (data : Array UInt8) (record : DirectoryEnd) :
    Except ArchiveError DirectoryPlace := do
  if !record.overflows && record.disk ≠ record.directoryDisk then throw .severalDisks
  let behind := 42 + record.commentLength
  if behind ≤ data.size then
    let locator := data.size - behind
    if (← field data locator 4) = largeLocatorMark then largePlace data record locator
    else record.place
  else record.place

/-! ### The directory -/

/-- What the directory says of an entry.  Positions count from the start of the data. -/
structure EntryHeader where
  name : String
  encrypted : Bool
  method : Nat
  checksum : UInt32
  compressedSize : Nat
  size : Nat
  start : Nat
  /-- Whether a further field tells of strong encryption. -/
  strong : Bool := false
  deriving DecidableEq, Repr

/-- The method of entries with strong encryption, whose own method stands in a further field. -/
def strongMethod : Nat := 99

/-- Takes a number of `n` bytes from the front of a byte sequence. -/
def takeField (n : Nat) (bytes : List UInt8) : Option (Nat × List UInt8) :=
  if n ≤ bytes.length then
    some ((bytes.take n).foldr (fun b value => value * 256 + b.toNat) 0, bytes.drop n)
  else none

/-- Takes the number of eight bytes for a field that is too small for it. -/
def takeLarge (value : Nat) (bytes : List UInt8) : Option (Nat × List UInt8) :=
  if value = overflow32 then takeField 8 bytes else some (value, bytes)

/-- Reads the sizes and the place of a large entry, as far as they are there. -/
def largeSizes (entry : EntryHeader) (bytes : List UInt8) : EntryHeader × Option (List UInt8) :=
  match takeLarge entry.size bytes with
  | none => (entry, none)
  | some (size, bytes) =>
    let entry := { entry with size }
    match takeLarge entry.compressedSize bytes with
    | none => (entry, none)
    | some (compressedSize, bytes) =>
      let entry := { entry with compressedSize }
      match takeLarge entry.start bytes with
      | none => (entry, none)
      | some (start, bytes) => ({ entry with start }, some bytes)

/-- Reads what is said of strong encryption. -/
def strongEncryption (entry : EntryHeader) (bytes : List UInt8) :
    Except ArchiveError (EntryHeader × Option (List UInt8)) :=
  let numbers : Option (Nat × Nat × Nat × Nat × List UInt8) := do
    let (version, bytes) ← takeField 2 bytes
    let (vendor, bytes) ← takeField 2 bytes
    let (strength, bytes) ← takeField 1 bytes
    let (method, bytes) ← takeField 2 bytes
    return (version, vendor, strength, method, bytes)
  match numbers with
  | none => .ok (entry, none)
  | some (version, vendor, strength, method, bytes) =>
    if vendor ≠ 0x4541 then .error .unknownVendor
    else if version ≠ 1 && version ≠ 2 then .error .unknownVendorVersion
    else if strength = 0 || 3 < strength then .error .unknownStrength
    else .ok ({ entry with method, strong := true }, some bytes)

/-- Reads the further fields of an entry, each with its kind and its length.  Fields that end early
are left out, and so are as many bytes behind a field of strong encryption as the field has. -/
def extraFields : Nat → EntryHeader → List UInt8 → Except ArchiveError EntryHeader
  | 0, entry, _ => .ok entry
  | fuel + 1, entry, bytes =>
    match takeField 2 bytes with
    | none => .ok entry
    | some (kind, bytes) =>
      match takeField 2 bytes with
      | none => .ok entry
      | some (length, bytes) =>
        if kind = 1 then
          match largeSizes entry bytes with
          | (entry, none) => .ok entry
          | (entry, some rest) =>
            extraFields fuel entry (rest.drop (length - (bytes.length - rest.length)))
        else if kind = 0x9901 then
          if length ≠ 7 then .error .badStrongEncryptionLength
          else
            match strongEncryption entry bytes with
            | .error e => .error e
            | .ok (entry, none) => .ok entry
            | .ok (entry, some rest) => extraFields fuel entry (rest.drop length)
        else extraFields fuel entry (bytes.drop length)

/-- The text of a name: UTF-8 if the flags say so, otherwise code page 437. -/
def nameText (flags : Nat) (bytes : List UInt8) : String :=
  if flags / 2048 % 2 = 1 then Text.Utf8.decodeLossy bytes else Text.Cp437.decode bytes

/-- Reads the entry of the directory at a position, and where the next one lies. -/
def entryHeader (data : Array UInt8) (shift position : Nat) :
    Except ArchiveError (EntryHeader × Nat) := do
  if (← field data position 4) ≠ entryMark then throw .badDirectoryEntry
  let flags ← field data (position + 8) 2
  let method ← field data (position + 10) 2
  let checksum ← field data (position + 16) 4
  let compressedSize ← field data (position + 20) 4
  let size ← field data (position + 24) 4
  let nameLength ← field data (position + 28) 2
  let extraLength ← field data (position + 30) 2
  let commentLength ← field data (position + 32) 2
  let start ← field data (position + 42) 4
  let nameEnd := position + 46 + nameLength
  let next := nameEnd + extraLength + commentLength
  if data.size < next then throw .shortRead
  let name := nameText flags (data.extract (position + 46) nameEnd).toList
  let extra := (data.extract nameEnd (nameEnd + extraLength)).toList
  let entry ← extraFields (extra.length + 1)
    { name, encrypted := flags % 2 == 1, method, checksum := UInt32.ofNat checksum,
      compressedSize, size, start } extra
  if entry.method = strongMethod && !entry.strong then throw .missingStrongEncryption
  if greatest64 < entry.start + shift then throw .headerTooFar
  return ({ entry with start := entry.start + shift }, next)

/-- Reads `n` more entries of the directory, one behind the other; `found` holds the latest
first. -/
def directory (data : Array UInt8) (shift : Nat) :
    Nat → Nat → List EntryHeader → Except ArchiveError (List EntryHeader)
  | 0, _, found => .ok found.reverse
  | n + 1, position, found => do
    let (entry, next) ← entryHeader data shift position
    directory data shift n next (entry :: found)

/-! ### Entries -/

/-- How the content of an entry is kept. -/
def storageOf (method : Nat) : Except ArchiveError Storage :=
  match method with
  | 0 => .ok .stored
  | 8 => .ok .deflated
  | _ => .error .unknownMethod

/-- Reads the record in front of the data of an entry, and the data. -/
def storedFile (data : Array UInt8) (entry : EntryHeader) : Except ArchiveError StoredFile := do
  if entry.encrypted then throw .passwordRequired
  if (← field data entry.start 4) ≠ localMark then throw .badLocalHeader
  let nameLength ← field data (entry.start + 26) 2
  let extraLength ← field data (entry.start + 28) 2
  let start := entry.start + 30 + nameLength + extraLength
  let storage ← storageOf entry.method
  return ⟨entry.name, storage, entry.checksum, data.extract start (start + entry.compressedSize)⟩

/-- Whether a name is that of a folder. -/
def isFolderName (name : String) : Bool :=
  match name.toList.getLast? with
  | some c => c == '/' || c == '\\'
  | none => false

/-- The entry of an archive that the directory tells of. -/
def archiveEntry (data : Array UInt8) (entry : EntryHeader) : ArchiveEntry :=
  match storedFile data entry with
  | .error cause => .inaccessible cause.message
  | .ok file =>
    if isFolderName file.name then .folder
    else
      match file.content with
      | .error cause => .unreadable file.name cause.message
      | .ok content => .file file.name content

/-- The entries of an archive, in the order of its directory. -/
def entries (bytes : List UInt8) : Except ArchiveError (List ArchiveEntry) := do
  let data := bytes.toArray
  let record ← directoryEnd data
  let place ← directoryPlace data record
  let headers ← directory data place.shift place.entries place.start []
  return headers.map (archiveEntry data)

/-- Zip archives as a format. -/
def format : ArchiveFormat := ⟨fun bytes => (entries bytes).mapError ArchiveError.message⟩

end Zip

end PackageAudit
