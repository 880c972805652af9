/-
What the commands print.
-/
import PackageAudit.CommandLine.Arguments
import PackageAudit.Report.Json

namespace PackageAudit

/-! ### Reports -/

/-- Text in a color of the terminal. -/
def colored (color : Nat) (text : String) : String :=
  "\x1b[" ++ Text.decimal color ++ "m" ++ text ++ "\x1b[0m"

/-- The color of a severity: blue, yellow or red. -/
def Severity.color : Severity → Nat
  | .info => 34
  | .warning => 33
  | .error => 31

/-- The color of the totals: that of the gravest finding, or green if none is a warning or an
error. -/
def Report.color (report : Report) : Nat :=
  if report.hasErrors then Severity.error.color
  else if report.hasWarnings then Severity.warning.color
  else 32

/-- A report in color. -/
def Report.inColor (report : Report) : String :=
  String.join (report.findings.map fun finding =>
    finding.blockWith (colored finding.severity.color finding.severity.name) ++ "\n")
    ++ colored report.color report.summary ++ "\n"

/-- A report with a line for each finding. -/
def Report.compact (report : Report) : String :=
  String.join (report.findings.map fun finding => finding.line ++ "\n")

/-- A report in a format. -/
def Report.render (report : Report) : CommandLine.CheckFormat → String
  | .text => report.inColor
  | .json => report.toJson.render ++ "\n"
  | .compact => report.compact

/-! ### Models -/

/-- Line counts as a JSON value. -/
def LineCounts.toJson (counts : LineCounts) : JsonValue :=
  .object [("code", .ofNat counts.code), ("comment", .ofNat counts.comment),
    ("blank", .ofNat counts.blank), ("total", .ofNat counts.total)]

namespace PackageSummary

/-- A summary as a JSON value. -/
def toJson (summary : PackageSummary) : JsonValue :=
  .object [("name", .string summary.name), ("analyzed", .bool summary.analyzed),
    ("classes", .ofNat summary.sizes.classes),
    ("code_size", .ofNat summary.sizes.codeSize.toNat),
    ("total_size", .ofNat summary.sizes.totalSize.toNat),
    ("lines", match summary.sizes.lines with
      | some counts => counts.toJson
      | none => .null),
    ("uses", .ofTexts summary.uses)]

/-- The line counts of a summary, as they follow its sizes. -/
def linesText (summary : PackageSummary) : String :=
  match summary.sizes.lines with
  | none => ""
  | some counts =>
    ", " ++ Text.decimal counts.code ++ " code / " ++ Text.decimal counts.comment
      ++ " comment / " ++ Text.decimal counts.blank ++ " blank lines"

/-- A summary in several lines: the sizes, and the packages that are used. -/
def block (summary : PackageSummary) : String :=
  summary.name ++ (if summary.analyzed then "" else " (external)") ++ ": "
    ++ Text.decimal summary.sizes.classes ++ " classes, "
    ++ Text.decimal summary.sizes.codeSize.toNat ++ " bytes code, "
    ++ Text.decimal summary.sizes.totalSize.toNat ++ " bytes total"
    ++ summary.linesText ++ "\n"
    ++ String.join (summary.uses.map fun used => "  -> " ++ used ++ "\n")

end PackageSummary

/-- An entry that was left out, as a JSON value. -/
def SkippedEntry.toJson (entry : SkippedEntry) : JsonValue :=
  .object [("location", .string entry.location), ("reason", .string entry.reason)]

/-- An entry that was left out, as a line. -/
def SkippedEntry.line (entry : SkippedEntry) : String :=
  "skipped " ++ entry.location ++ ": " ++ entry.reason ++ "\n"

/-- A model in a format. -/
def BuildOutcome.render (outcome : BuildOutcome) : CommandLine.ModelFormat → String
  | .text =>
    String.join (outcome.model.summaries.map (·.block))
      ++ String.join (outcome.skipped.map (·.line))
  | .json =>
    (JsonValue.object [("packages", .array (outcome.model.summaries.map (·.toJson))),
      ("skipped", .array (outcome.skipped.map (·.toJson)))]).render ++ "\n"

end PackageAudit
