/-
Reports: the findings of an analysis with its totals.
-/
import PackageAudit.Finding

namespace PackageAudit

/-- The result of an analysis: its findings in order, how many packages and classes the model
has, and how many findings were ignored. -/
structure Report where
  findings : List Finding := []
  packagesChecked : Nat := 0
  classesChecked : Nat := 0
  ignored : Nat := 0
  deriving DecidableEq, Repr

namespace Report

/-- Whether a finding reaches a severity. -/
def hasFindingsAt (report : Report) (threshold : Severity) : Bool :=
  report.findings.any (·.severity.reaches threshold)

/-- Whether there are errors. -/
def hasErrors (report : Report) : Bool := report.hasFindingsAt .error

/-- Whether there are warnings or errors. -/
def hasWarnings (report : Report) : Bool := report.hasFindingsAt .warning

/-- The findings of a kind. -/
def ofKind (report : Report) (kind : FindingKind) : List Finding :=
  report.findings.filter (·.hasKind kind)

/-- The number of findings of a severity. -/
def count (report : Report) (severity : Severity) : Nat :=
  (report.findings.filter (·.severity == severity)).length

/-- The totals in one line. -/
def summary (report : Report) : String :=
  "Found " ++ Text.decimal (report.count .error) ++ " error(s), "
    ++ Text.decimal (report.count .warning) ++ " warning(s), "
    ++ Text.decimal (report.count .info) ++ " info(s) in "
    ++ Text.decimal report.packagesChecked ++ " package(s), "
    ++ Text.decimal report.classesChecked ++ " class(es); "
    ++ Text.decimal report.ignored ++ " ignored"

/-- The report as plain text: all findings and the totals. -/
def plain (report : Report) : String :=
  String.join (report.findings.map fun finding => finding.block ++ "\n")
    ++ "\n" ++ report.summary ++ "\n"

/-- The report of a failed test: the findings that reach a severity, and the totals of all. -/
def failure (report : Report) (threshold : Severity) : String :=
  let failing := report.findings.filter (·.severity.reaches threshold)
  "\n=== code-assert: " ++ Text.decimal failing.length ++ " finding(s) ===\n\n"
    ++ String.join (failing.map fun finding => finding.block ++ "\n")
    ++ report.summary ++ "\n"

end Report

end PackageAudit
