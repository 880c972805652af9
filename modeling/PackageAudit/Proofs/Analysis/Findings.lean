/-
What a report accounts for.

A check brings up violations, packages without a rule, unused rules, cycles and allowed groups
without a cycle.  Three of these lists pass through one ignore filter, in turn, and what it has
not needed by then is brought up as well.  Whatever the order of the steps, every item ends in
one place: it is a finding, or it is counted as ignored.
-/
import Mathlib.Data.List.Perm.Subperm
import Mathlib.Data.List.Permutation
import PackageAudit.Analysis.Check
import PackageAudit.Proofs.Ignore

namespace PackageAudit

open Ascending IgnoreEntry

/-! ### What a pattern takes in -/

/-- Whether an ignore pattern takes in a violation: by the dependency that it is about. -/
def IgnorePattern.coversViolation (pattern : IgnorePattern) (v : RuleViolation) : Bool :=
  pattern.coversEdge v.source v.target

/-- Whether an ignore pattern takes in a cycle: all of its members by itself. -/
def IgnorePattern.coversCycle (pattern : IgnorePattern) (cycle : Cycle) : Bool :=
  cycle.members.all pattern.coversName

/-! ### Severities -/

theorem Severity.reaches_error {severity : Severity} :
    severity.reaches .error = true ↔ severity = .error := by
  cases severity <;> decide

namespace Finding

/-- The findings that are errors. -/
def errors (findings : List Finding) : List Finding :=
  findings.filter fun finding => finding.severity == .error

theorem severity_ofViolation (v : RuleViolation) : (ofViolation v).severity = .error := by
  unfold ofViolation
  split <;> rfl

theorem errors_append (findings more : List Finding) :
    errors (findings ++ more) = errors findings ++ errors more :=
  List.filter_append ..

/-- Findings that are made from items are errors all or none. -/
theorem errors_map {α : Type} (make : α → Finding) {severity : Severity}
    (h : ∀ item, (make item).severity = severity) (items : List α) :
    errors (items.map make) = if severity = .error then items.map make else [] := by
  split
  next hsev =>
    rw [errors, List.filter_eq_self]
    intro finding hmem
    obtain ⟨item, -, rfl⟩ := List.mem_map.mp hmem
    simp [h, hsev]
  next hsev =>
    rw [errors, List.filter_eq_nil_iff]
    intro finding hmem
    obtain ⟨item, -, rfl⟩ := List.mem_map.mp hmem
    simp [h, hsev]

instance : Std.TransCmp reportOrder :=
  inferInstanceAs (Std.TransCmp (compareLex (compareOn Finding.code)
    (compareOn Finding.subject)))

theorem reportOrder_isLE {a b : Finding} : (reportOrder a b).isLE = true ↔
    a.code < b.code ∨ a.code = b.code ∧ (a.subject < b.subject ∨ a.subject = b.subject) := by
  show ((compare a.code b.code).then (compare a.subject b.subject)).isLE = true ↔ _
  rw [Ordering.isLE_then_iff_or, ← compare_string_lt, ← compare_string_lt,
    Std.LawfulEqOrd.compare_eq_iff_eq, Ordering.isLE_iff_eq_lt_or_eq_eq,
    Std.LawfulEqOrd.compare_eq_iff_eq]

end Finding

namespace Report

theorem hasErrors_iff {report : Report} :
    report.hasErrors = true ↔ Finding.errors report.findings ≠ [] := by
  rw [hasErrors, hasFindingsAt, Finding.errors, ne_eq, List.filter_eq_nil_iff, List.any_eq_true]
  simp [Severity.reaches_error]

end Report

namespace Configuration

variable {config : Configuration} {outcome : BuildOutcome} {model : Model} {rules : RuleReport}
  {report : Report} {filter : IgnoreFilter} {used : IgnoreKey → Prop}

/-- What the rules say of a model.  Without rules they say nothing. -/
def ruleReport (config : Configuration) (model : Model) : Except RuleSetError RuleReport :=
  match config.rules with
  | none => .ok ⟨[], [], []⟩
  | some rules => rules.evaluate model

/-- The cycles of a model, if the configuration asks for them. -/
def cycleReport (config : Configuration) (model : Model) : CycleReport :=
  if config.cycles.enabled then
    model.detectCycles config.cycles.scope
      ((config.rules.map (·.allowIntraPackageCycles)).getD false) config.cycles.allow
  else ⟨[], []⟩

/-- Whether the patterns of a key take in none of what is brought up. -/
def IsIdle (config : Configuration) (model : Model) (rules : RuleReport) (key : IgnoreKey) :
    Prop :=
  (∃ pattern, key.IsOf config.ignores pattern) ∧
    ¬key.TakesIn config.ignores IgnorePattern.coversViolation rules.violations ∧
    ¬key.TakesIn config.ignores IgnorePattern.coversName rules.undefined ∧
    ¬key.TakesIn config.ignores IgnorePattern.coversCycle (config.cycleReport model).cycles

/-- What is left of the findings of the rules, and how many are ignored. -/
def ruleFindings (config : Configuration) (rules : RuleReport) : Checked where
  findings :=
    (leave config.ignores IgnorePattern.coversViolation rules.violations).map Finding.ofViolation
      ++ (leave config.ignores IgnorePattern.coversName rules.undefined).map Finding.ofUndefined
      ++ rules.unused.map Finding.ofUnusedRule
  ignored := rules.violations.countP (suppress config.ignores IgnorePattern.coversViolation)
    + rules.undefined.countP (suppress config.ignores IgnorePattern.coversName)

/-- What is left of the findings about cycles, and how many are ignored. -/
def cycleFindings (config : Configuration) (model : Model) : Checked where
  findings :=
    (leave config.ignores IgnorePattern.coversCycle (config.cycleReport model).cycles).map
        (Finding.ofCycle config.cycles.scope)
      ++ (config.cycleReport model).unusedExceptions.map Finding.ofUnusedGroup
  ignored := (config.cycleReport model).cycles.countP
    (suppress config.ignores IgnorePattern.coversCycle)

/-- A report that accounts for what the rules say of an outcome, and for its cycles. -/
structure Accounts (config : Configuration) (outcome : BuildOutcome) (rules : RuleReport)
    (report : Report) : Prop where
  sorted : report.findings.Pairwise fun a b =>
    a.code < b.code ∨ a.code = b.code ∧ (a.subject < b.subject ∨ a.subject = b.subject)
  findings : ∃ idle, IsAscending idle ∧
    (∀ key, key ∈ idle ↔ config.IsIdle outcome.model rules key) ∧
    report.findings.Perm ((config.ruleFindings rules).findings
      ++ (config.cycleFindings outcome.model).findings
      ++ idle.map Finding.ofUnusedIgnore
      ++ outcome.skipped.map Finding.ofSkipped)
  ignored : report.ignored
    = (config.ruleFindings rules).ignored + (config.cycleFindings outcome.model).ignored

/-! ### The steps of a check -/

/-- The filter after the rules. -/
def afterRules (filter : IgnoreFilter) (rules : RuleReport) : IgnoreFilter :=
  ((filter.retain IgnorePattern.coversViolation rules.violations).2.retain
    IgnorePattern.coversName rules.undefined).2

/-- The filter after the cycles. -/
def afterCycles (config : Configuration) (filter : IgnoreFilter) (model : Model) : IgnoreFilter :=
  (filter.retain IgnorePattern.coversCycle (config.cycleReport model).cycles).2

theorem hasUsed_afterRules (h : filter.HasUsed config.ignores used) :
    (afterRules filter rules).HasUsed config.ignores fun key =>
      (used key ∨ key.TakesIn config.ignores IgnorePattern.coversViolation rules.violations)
        ∨ key.TakesIn config.ignores IgnorePattern.coversName rules.undefined :=
  h.retain_snd.retain_snd

theorem hasUsed_afterCycles (h : filter.HasUsed config.ignores used) :
    (config.afterCycles filter model).HasUsed config.ignores fun key =>
      used key ∨
        key.TakesIn config.ignores IgnorePattern.coversCycle (config.cycleReport model).cycles :=
  h.retain_snd

-- Each step keeps of its list what a new filter would, whatever the steps before have recorded.
theorem checkRules_eq (h : filter.HasUsed config.ignores used) :
    config.checkRules model filter = (config.ruleReport model).map fun rules =>
      (config.ruleFindings rules, afterRules filter rules) := by
  unfold checkRules ruleReport
  cases config.rules with
  | none => rfl
  | some rules =>
      show rules.check model filter = (rules.evaluate model).map _
      unfold RuleSet.check
      cases rules.evaluate model with
      | error e => rfl
      | ok found =>
          show Except.ok (Checked.mk
            ((filter.retain IgnorePattern.coversViolation found.violations).1.1.map _
              ++ ((filter.retain _ _).2.retain IgnorePattern.coversName found.undefined).1.1.map _
              ++ _)
            ((filter.retain IgnorePattern.coversViolation found.violations).1.2
              + ((filter.retain _ _).2.retain IgnorePattern.coversName found.undefined).1.2), _)
            = Except.ok _
          rw [h.retain_fst, h.retain_snd.retain_fst]
          rfl

theorem checkCycles_eq (h : filter.HasUsed config.ignores used) :
    config.checkCycles model filter
      = (config.cycleFindings model, config.afterCycles filter model) := by
  unfold checkCycles cycleFindings afterCycles cycleReport
  by_cases henabled : config.cycles.enabled = true
  · simp only [henabled, if_true]
    show (Checked.mk ((filter.retain IgnorePattern.coversCycle _).1.1.map _ ++ _)
      (filter.retain IgnorePattern.coversCycle _).1.2, _) = _
    rw [h.retain_fst]
    rfl
  · rw [if_neg henabled, if_neg henabled]
    rfl

theorem check_eq : config.check outcome = (config.ruleReport outcome.model).map fun rules =>
    { findings := ((config.ruleFindings rules).findings
          ++ (config.cycleFindings outcome.model).findings
          ++ (config.afterCycles (afterRules (.ofEntries config.ignores) rules)
              outcome.model).unused.map Finding.ofUnusedIgnore
          ++ outcome.skipped.map Finding.ofSkipped).mergeSort
        fun a b => (Finding.reportOrder a b).isLE
      packagesChecked := outcome.model.packages.size
      classesChecked := outcome.model.classes.size
      ignored := (config.ruleFindings rules).ignored
        + (config.cycleFindings outcome.model).ignored } := by
  have hstart := IgnoreFilter.hasUsed_ofEntries config.ignores
  unfold check
  dsimp only
  rw [checkRules_eq hstart]
  cases config.ruleReport outcome.model with
  | error e => rfl
  | ok rules =>
      simp only [Except.map, bind, Except.bind]
      rw [checkCycles_eq (hasUsed_afterRules hstart)]
      rfl

/-- Where the rules have an answer, there is a report, and it accounts for everything. -/
theorem check_of_ok (h : config.ruleReport outcome.model = .ok rules) :
    ∃ report, config.check outcome = .ok report ∧ config.Accounts outcome rules report := by
  rw [check_eq, h]
  have hused : (config.afterCycles (afterRules (.ofEntries config.ignores) rules)
      outcome.model).HasUsed config.ignores _ :=
    hasUsed_afterCycles (hasUsed_afterRules (IgnoreFilter.hasUsed_ofEntries _))
  refine ⟨_, rfl, ?_, ⟨_, hused.isAscending_unused, ?_, List.mergeSort_perm _ _⟩, rfl⟩
  · exact (pairwise_isLE_mergeSort Finding.reportOrder _).imp Finding.reportOrder_isLE.mp
  · intro key
    rw [hused.mem_unused, IsIdle]
    simp only [not_or, and_assoc, false_or]

/-! ### Errors -/

namespace Accounts

variable (h : config.Accounts outcome rules report)
include h

/-- The errors of a report are the violations and the cycles that no pattern takes in. -/
theorem errors_perm : (Finding.errors report.findings).Perm
    ((leave config.ignores IgnorePattern.coversViolation rules.violations).map Finding.ofViolation
      ++ (leave config.ignores IgnorePattern.coversCycle
          (config.cycleReport outcome.model).cycles).map
        (Finding.ofCycle config.cycles.scope)) := by
  obtain ⟨idle, -, -, hperm⟩ := h.findings
  refine (hperm.filter _).trans (List.Perm.of_eq ?_)
  show Finding.errors _ = _
  simp only [ruleFindings, cycleFindings, Finding.errors_append]
  rw [Finding.errors_map Finding.ofViolation Finding.severity_ofViolation,
    Finding.errors_map Finding.ofUndefined fun _ => rfl,
    Finding.errors_map Finding.ofUnusedRule fun _ => rfl,
    Finding.errors_map (Finding.ofCycle config.cycles.scope) fun _ => rfl,
    Finding.errors_map Finding.ofUnusedGroup fun _ => rfl,
    Finding.errors_map Finding.ofUnusedIgnore fun _ => rfl,
    Finding.errors_map Finding.ofSkipped fun _ => rfl]
  simp

theorem hasErrors_iff : report.hasErrors = true ↔
    (∃ v ∈ rules.violations, suppress config.ignores IgnorePattern.coversViolation v = false) ∨
      ∃ cycle ∈ (config.cycleReport outcome.model).cycles,
        suppress config.ignores IgnorePattern.coversCycle cycle = false := by
  rw [Report.hasErrors_iff, ← List.length_pos_iff, h.errors_perm.length_eq, List.length_pos_iff,
    ne_eq, List.append_eq_nil_iff, List.map_eq_nil_iff, List.map_eq_nil_iff, leave, leave,
    List.filter_eq_nil_iff, List.filter_eq_nil_iff, not_and_or]
  simp

end Accounts

/-- A report accounts for all that the check brings up.  It has an error exactly if a violation or
a cycle is left, and with more patterns the same check has no other errors. -/
theorem check_accounts (h : config.check outcome = .ok report) :
    ∃ rules, config.ruleReport outcome.model = .ok rules ∧
      config.Accounts outcome rules report ∧
      (report.hasErrors = true ↔
        (∃ v ∈ rules.violations,
          suppress config.ignores IgnorePattern.coversViolation v = false) ∨
        ∃ cycle ∈ (config.cycleReport outcome.model).cycles,
          suppress config.ignores IgnorePattern.coversCycle cycle = false) ∧
      ∀ more : List IgnoreEntry,
        config.ignores.flatMap IgnoreEntry.patterns ⊆ more.flatMap IgnoreEntry.patterns →
        ∃ extended, { config with ignores := more }.check outcome = .ok extended ∧
          (Finding.errors extended.findings).Subperm (Finding.errors report.findings) := by
  cases hrules : config.ruleReport outcome.model with
  | error e =>
      rw [check_eq, hrules] at h
      cases h
  | ok rules =>
      obtain ⟨found, hfound, haccounts⟩ := check_of_ok hrules
      obtain rfl : found = report := Except.ok.inj (hfound.symm.trans h)
      refine ⟨rules, rfl, haccounts, haccounts.hasErrors_iff, ?_⟩
      intro more hmore
      -- The rules and the cycles do not look at what is ignored.
      have hsame : { config with ignores := more }.ruleReport outcome.model = .ok rules := hrules
      obtain ⟨extended, hextended, hless⟩ := check_of_ok hsame
      refine ⟨extended, hextended, hless.errors_perm.subperm.trans ?_⟩
      refine (List.Sublist.subperm ?_).trans haccounts.errors_perm.symm.subperm
      exact ((leave_sublist hmore _ _).map _).append ((leave_sublist hmore _ _).map _)

/-- Rules that deny a use, and an entry that takes it in with one of its patterns. -/
def circle : Configuration where
  rules := some { mode := .allowByDefault
                  rules := [{ pattern := .exact "app", uses := { mustNot := [.exact "lib"] } }] }
  ignores := [⟨"legacy", [⟨"app -> lib", .exact "app", some (.exact "lib")⟩,
    ⟨"lib -> app", .exact "lib", some (.exact "app")⟩]⟩]

/-- Two packages that use each other, and an entry that could not be read. -/
def circleOutcome : BuildOutcome where
  model := ⟨#[⟨"app", [], [⟨1⟩], true, [], {}⟩, ⟨"lib", [], [⟨0⟩], true, [], {}⟩], #[]⟩
  skipped := [⟨"broken.class", "no class file"⟩]

theorem circle_ruleReport : circle.ruleReport circleOutcome.model
    = .ok ⟨[⟨"app", "lib", .disallowed, []⟩], [], ["lib"]⟩ := by
  cbv

theorem circle_cycles : (circle.cycleReport circleOutcome.model).cycles
    = [⟨["app", "lib"], [⟨"app", "lib", []⟩, ⟨"lib", "app", []⟩]⟩] := by
  cbv

/-- The violation is ignored, and the cycle is left: no one pattern takes in both packages. -/
theorem circle_accounts : ∃ report, circle.check circleOutcome = .ok report ∧
    report.hasErrors = true ∧ report.ignored = 1 ∧
    ∃ extended, check { circle with
        ignores := circle.ignores ++ [⟨"all", [⟨"*", .every, none⟩]⟩] } circleOutcome
          = .ok extended ∧
      (Finding.errors extended.findings).Subperm (Finding.errors report.findings) := by
  obtain ⟨report, hreport, -⟩ := check_of_ok circle_ruleReport
  obtain ⟨rules, hrules, haccounts, herrors, hextend⟩ := check_accounts hreport
  obtain rfl := Except.ok.inj (circle_ruleReport.symm.trans hrules)
  refine ⟨report, hreport, ?_, ?_, hextend _ (by simp)⟩
  · rw [herrors, circle_cycles]
    exact Or.inr ⟨_, List.mem_cons_self, by decide⟩
  · rw [haccounts.ignored, ruleFindings, cycleFindings, circle_cycles]
    decide

end Configuration

end PackageAudit
