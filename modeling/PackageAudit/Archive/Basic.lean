/-
Archives as they are seen from outside.

How an archive is written down is left open: a format is a way to open data as an archive, which
gives its entries one after the other or says why it cannot be opened.
-/
namespace PackageAudit

/-- An entry of an archive that was opened. -/
inductive ArchiveEntry where
  /-- An entry of which nothing is known but that it is there. -/
  | inaccessible (reason : String)
  | folder
  /-- A file whose content cannot be read. -/
  | unreadable (name reason : String)
  | file (name : String) (data : List UInt8)
  deriving DecidableEq, Repr

/-- A format of archives. -/
structure ArchiveFormat where
  /-- The entries of an archive in their order, or the reason why it cannot be opened. -/
  entries : List UInt8 → Except String (List ArchiveEntry)

end PackageAudit
