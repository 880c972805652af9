/-
Findings: what an analysis reports.

Each kind of finding has a code, a name and a severity of its own.  A finding carries them as
text, so that a stored report can be read back whatever wrote it.
-/
import PackageAudit.Cycle
import PackageAudit.Ignore
import PackageAudit.Inputs.Contents
import PackageAudit.Rules.Evaluation

namespace PackageAudit

/-- How much a finding weighs. -/
inductive Severity where
  | info
  | warning
  | error
  deriving DecidableEq, Repr

namespace Severity

/-- All severities, from the lightest on. -/
def all : List Severity := [.info, .warning, .error]

/-- The name of a severity. -/
def name : Severity → String
  | .info => "info"
  | .warning => "warning"
  | .error => "error"

/-- The severity of a given name. -/
def ofName? (name : String) : Option Severity := all.find? (·.name == name)

/-- The position of a severity among all. -/
def rank : Severity → Nat
  | .info => 0
  | .warning => 1
  | .error => 2

/-- Whether a severity reaches a threshold. -/
def reaches (severity threshold : Severity) : Bool := threshold.rank ≤ severity.rank

end Severity

/-- What a finding reports. -/
inductive FindingKind where
  /-- A dependency that the rules do not allow. -/
  | disallowed
  /-- A dependency that the rules ask for and that does not exist. -/
  | missingMandatory
  | cycle
  /-- A rule, or a target of one, that stands for no package. -/
  | unusedRule
  /-- A package that no rule covers. -/
  | undefinedPackage
  /-- An entry of the inputs that was left out of the model. -/
  | skippedEntry
  /-- An ignore pattern or an allowed cycle that suppressed nothing. -/
  | unusedException
  deriving DecidableEq, Repr

namespace FindingKind

/-- All kinds, in the order of their codes. -/
def all : List FindingKind :=
  [.disallowed, .missingMandatory, .cycle, .unusedRule, .undefinedPackage, .skippedEntry,
    .unusedException]

/-- The code of a kind. -/
def code : FindingKind → String
  | .disallowed => "CA001"
  | .missingMandatory => "CA002"
  | .cycle => "CA003"
  | .unusedRule => "CA004"
  | .undefinedPackage => "CA005"
  | .skippedEntry => "CA006"
  | .unusedException => "CA007"

/-- The name of a kind. -/
def name : FindingKind → String
  | .disallowed => "disallowed-dependency"
  | .missingMandatory => "missing-dependency"
  | .cycle => "dependency-cycle"
  | .unusedRule => "unused-rule"
  | .undefinedPackage => "undefined-package"
  | .skippedEntry => "skipped-entry"
  | .unusedException => "unused-exception"

/-- The severity of findings of a kind. -/
def severity : FindingKind → Severity
  | .disallowed | .missingMandatory | .cycle => .error
  | .unusedRule | .skippedEntry | .unusedException => .warning
  | .undefinedPackage => .info

end FindingKind

/-- A reported problem.  The subject is a dependency, a package, a pattern or a location; the
details are lines that support the message. -/
structure Finding where
  code : String
  rule : String
  severity : Severity
  subject : String
  message : String
  details : List String := []
  deriving DecidableEq, Repr

namespace Finding

/-- A finding of a kind. -/
def ofKind (kind : FindingKind) (subject message : String) (details : List String := []) :
    Finding :=
  ⟨kind.code, kind.name, kind.severity, subject, message, details⟩

/-- Whether the finding is of a kind, which its code decides. -/
def hasKind (finding : Finding) (kind : FindingKind) : Bool := finding.code == kind.code

/-- A dependency as text. -/
def arrow (source target : String) : String := source ++ " -> " ++ target

/-- Names in a row. -/
def commas (names : List String) : String := String.intercalate ", " names

/-- A dependency that breaks the rules. -/
def ofViolation (v : RuleViolation) : Finding :=
  match v.kind with
  | .disallowed =>
    ofKind .disallowed (arrow v.source v.target)
      ("`" ++ v.source ++ "` is not allowed to use `" ++ v.target ++ "`")
      (v.vias.map ("via " ++ ·))
  | .missingMandatory =>
    ofKind .missingMandatory (arrow v.source v.target)
      ("`" ++ v.source ++ "` must use `" ++ v.target ++ "`")

/-- A package that no rule covers. -/
def ofUndefined (package : String) : Finding :=
  ofKind .undefinedPackage package "package is not covered by any rule"

/-- A rule or a target of one that stands for no package. -/
def ofUnusedRule (unused : UnusedRule) : Finding :=
  ofKind .unusedRule unused.pattern <|
    match unused.relation with
    | none => "rule `" ++ unused.rule ++ "` matches no package"
    | some kind =>
      kind.name ++ " target `" ++ unused.pattern ++ "` of rule `" ++ unused.rule
        ++ "` matches no package"

/-- A dependency of a cycle as text. -/
def edgeText (edge : CycleEdge) : String :=
  if edge.vias.isEmpty then arrow edge.source edge.target
  else arrow edge.source edge.target ++ " (via " ++ commas edge.vias ++ ")"

/-- A cycle of packages or classes. -/
def ofCycle (scope : CycleScope) (cycle : Cycle) : Finding :=
  ofKind .cycle (commas cycle.members)
    ("dependency cycle between " ++ Text.decimal cycle.members.length ++ " " ++ scope.name)
    (cycle.edges.map edgeText)

/-- An allowed group of names that covers no cycle. -/
def ofUnusedGroup (group : List String) : Finding :=
  ofKind .unusedException (commas group) "allowed cycle group matches no cycle"

/-- An ignore pattern that suppressed nothing. -/
def ofUnusedIgnore (key : IgnoreKey) : Finding :=
  ofKind .unusedException key.pattern
    ("ignore pattern suppressed nothing (because: " ++ key.because ++ ")")

/-- An entry that was left out of the model. -/
def ofSkipped (entry : SkippedEntry) : Finding :=
  ofKind .skippedEntry entry.location entry.reason

/-- The finding in one line. -/
def line (finding : Finding) : String :=
  finding.subject ++ ": " ++ finding.severity.name ++ " [" ++ finding.code ++ "] "
    ++ finding.message

/-- The finding in several lines: what and where, the message, and the details.  `mark` is the
severity as it is to be shown. -/
def blockWith (mark : String) (finding : Finding) : String :=
  finding.code ++ " " ++ finding.rule ++ " at " ++ finding.subject ++ "\n"
    ++ "  " ++ mark ++ ": " ++ finding.message ++ "\n"
    ++ String.join (finding.details.map fun detail => "  = " ++ detail ++ "\n")

/-- The finding in several lines. -/
def block (finding : Finding) : String := finding.blockWith finding.severity.name

/-- Findings are reported by code, then by subject. -/
def reportOrder : Finding → Finding → Ordering :=
  compareLex (compareOn Finding.code) (compareOn Finding.subject)

end Finding

end PackageAudit
