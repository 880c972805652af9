/-
What inputs contribute to a model.

An input yields classes, line counts of source files, and entries that had to be left out;
each of the three keeps the order in which it was met.
-/
import PackageAudit.Model.Basic

namespace PackageAudit

/-- An entry that was left out, and why.  The location is a path; inside an archive it is the
location of the archive, `!/` and the name of the entry. -/
structure SkippedEntry where
  location : String
  reason : String
  deriving DecidableEq, Repr

/-- What has been read from inputs. -/
structure Contents where
  classes : List ClassRecord := []
  sources : List SourceRecord := []
  skipped : List SkippedEntry := []
  deriving DecidableEq, Repr

namespace Contents

instance : Append Contents where
  append a b := ⟨a.classes ++ b.classes, a.sources ++ b.sources, a.skipped ++ b.skipped⟩

/-- A single class. -/
def ofClass (record : ClassRecord) : Contents := { classes := [record] }

/-- A single source file. -/
def ofSource (record : SourceRecord) : Contents := { sources := [record] }

/-- A single entry that was left out. -/
def ofSkipped (location reason : String) : Contents := { skipped := [⟨location, reason⟩] }

/-- The contents of several inputs, one behind the other. -/
def concat (parts : List Contents) : Contents where
  classes := parts.flatMap (·.classes)
  sources := parts.flatMap (·.sources)
  skipped := parts.flatMap (·.skipped)

end Contents

/-- A model that was built from inputs, with the entries that are not in it. -/
structure BuildOutcome where
  model : Model
  skipped : List SkippedEntry
  deriving DecidableEq, Repr

end PackageAudit
