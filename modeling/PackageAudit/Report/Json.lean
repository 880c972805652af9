/-
Reports as JSON, written and read back.
-/
import PackageAudit.Json
import PackageAudit.Report.Basic

namespace PackageAudit

/-- A finding as a JSON value; details are written only if there are any. -/
def Finding.toJson (finding : Finding) : JsonValue :=
  .object ([("code", .string finding.code), ("rule", .string finding.rule),
    ("severity", .string finding.severity.name), ("subject", .string finding.subject),
    ("message", .string finding.message)]
    ++ if finding.details.isEmpty then [] else [("details", .ofTexts finding.details)])

/-- Reads a finding.  Details may be missing. -/
def Finding.ofJson? (value : JsonValue) : Option Finding := do
  match ← value.fields? ["code", "rule", "severity", "subject", "message", "details"] with
  | [some code, some rule, some severity, some subject, some message, details] =>
    return {
      code := ← code.text?
      rule := ← rule.text?
      severity := ← Severity.ofName? (← severity.constantName?)
      subject := ← subject.text?
      message := ← message.text?
      details := ← (match details with
        | none => some []
        | some lines => lines.texts?) }
  | _ => none

/-- A report as a JSON value. -/
def Report.toJson (report : Report) : JsonValue :=
  .object [("findings", .array (report.findings.map Finding.toJson)),
    ("packages_checked", .ofNat report.packagesChecked),
    ("classes_checked", .ofNat report.classesChecked), ("ignored", .ofNat report.ignored)]

/-- Reads a report. -/
def Report.ofJson? (value : JsonValue) : Option Report := do
  match ← value.fields? ["findings", "packages_checked", "classes_checked", "ignored"] with
  | [some findings, some packages, some classes, some ignored] =>
    return {
      findings := ← (← findings.items?).mapM Finding.ofJson?
      packagesChecked := ← packages.count?
      classesChecked := ← classes.count?
      ignored := ← ignored.count? }
  | _ => none

end PackageAudit
