/-
Checking a model against a configuration.

Rules and cycles are checked in turn, and what an ignore pattern takes in is left out and
counted.  Patterns that suppressed nothing in any of the checks are reported themselves, and so
are the entries that did not make it into the model.
-/
import PackageAudit.Configuration.Basic
import PackageAudit.Report.Basic

namespace PackageAudit

/-- Findings of a check, with the number of those that were ignored. -/
structure Checked where
  findings : List Finding := []
  ignored : Nat := 0
  deriving DecidableEq, Repr

/-- Checks the rules. -/
def RuleSet.check (rules : RuleSet) (model : Model) (filter : IgnoreFilter) :
    Except RuleSetError (Checked × IgnoreFilter) := do
  let report ← rules.evaluate model
  let ((violations, ignoredViolations), filter) :=
    filter.retain (fun pattern (v : RuleViolation) => pattern.coversEdge v.source v.target)
      report.violations
  let ((undefined, ignoredPackages), filter) :=
    filter.retain IgnorePattern.coversName report.undefined
  return (⟨violations.map Finding.ofViolation ++ undefined.map Finding.ofUndefined
    ++ report.unused.map Finding.ofUnusedRule, ignoredViolations + ignoredPackages⟩, filter)

/-- Looks for cycles.  An ignore pattern takes in a cycle if it takes in all of its members. -/
def CycleSettings.check (settings : CycleSettings) (allowIntraPackage : Bool) (model : Model)
    (filter : IgnoreFilter) : Checked × IgnoreFilter :=
  let report := model.detectCycles settings.scope allowIntraPackage settings.allow
  let ((cycles, ignored), filter) :=
    filter.retain (fun pattern (c : Cycle) => c.members.all pattern.coversName) report.cycles
  (⟨cycles.map (Finding.ofCycle settings.scope)
    ++ report.unusedExceptions.map Finding.ofUnusedGroup, ignored⟩, filter)

namespace Configuration

/-- Checks the rules of a configuration, if it has any. -/
def checkRules (config : Configuration) (model : Model) (filter : IgnoreFilter) :
    Except RuleSetError (Checked × IgnoreFilter) :=
  match config.rules with
  | none => .ok ({}, filter)
  | some rules => rules.check model filter

/-- Looks for cycles, if the configuration asks for them. -/
def checkCycles (config : Configuration) (model : Model) (filter : IgnoreFilter) :
    Checked × IgnoreFilter :=
  if config.cycles.enabled then
    config.cycles.check ((config.rules.map (·.allowIntraPackageCycles)).getD false) model filter
  else ({}, filter)

/-- Checks a model.  Findings come by code and subject. -/
def check (config : Configuration) (outcome : BuildOutcome) : Except RuleSetError Report := do
  let filter := IgnoreFilter.ofEntries config.ignores
  let (fromRules, filter) ← config.checkRules outcome.model filter
  let (fromCycles, filter) := config.checkCycles outcome.model filter
  let findings := fromRules.findings ++ fromCycles.findings
    ++ filter.unused.map Finding.ofUnusedIgnore ++ outcome.skipped.map Finding.ofSkipped
  return {
    findings := findings.mergeSort fun a b => (Finding.reportOrder a b).isLE
    packagesChecked := outcome.model.packages.size
    classesChecked := outcome.model.classes.size
    ignored := fromRules.ignored + fromCycles.ignored }

end Configuration

end PackageAudit
