/-
What more classes do to the findings.

Rules speak of names, and more classes only add names and uses.  So what is found wrong stays
wrong: a dependency that can not be decided or is not allowed, a package that no rule stands
for, a cycle.  What goes away is what was reported as missing: a declaration that stood for no
package may stand for one, and a dependency that was required may be there.
-/
import PackageAudit.Proofs.Cycle.Report
import PackageAudit.Proofs.Model.Growth
import PackageAudit.Proofs.Rules.Evaluation

namespace PackageAudit

/-- Whether a report is of less than another: the other has its disallowed dependencies, by the same
classes and perhaps more, and its packages without a rule, and has no other unused declarations. -/
structure RuleReport.Within (small large : RuleReport) : Prop where
  disallowed : ∀ v ∈ small.violations, v.kind = .disallowed →
    ∃ w ∈ large.violations, w.kind = .disallowed ∧ w.source = v.source ∧ w.target = v.target
      ∧ v.vias ⊆ w.vias
  undefined : small.undefined ⊆ large.undefined
  unused : large.unused ⊆ small.unused

namespace RuleSet

variable {rules : RuleSet} {small large : Model} {p q : String}

section Within

theorem undefined_subset (h : small.Within large) :
    rules.undefined small ⊆ rules.undefined large := by
  intro name hname
  obtain ⟨⟨package, hpackage, rfl⟩, hnone⟩ := mem_undefined.mp hname
  exact mem_undefined.mpr ⟨h.packages package hpackage, hnone⟩

theorem unused_subset (h : small.Within large) : rules.unused large ⊆ rules.unused small := by
  intro unused hunused
  obtain ⟨hdeclared, hnone⟩ := mem_unused.mp hunused
  refine mem_unused.mpr ⟨hdeclared, ?_⟩
  intro pattern hpattern
  refine matching_eq_nil_iff.mpr fun package hpackage => ?_
  obtain ⟨other, hother, hname⟩ := h.packages package hpackage
  rw [← hname]
  exact matching_eq_nil_iff.mp (hnone pattern hpattern) other hother

variable (hsmall : small.Linked) (hlarge : large.Linked) (h : small.Within large)
include hsmall hlarge h

theorem Judged.within (hjudged : rules.Judged small p q) : rules.Judged large p q :=
  ⟨h.uses hsmall hlarge hjudged.1, hjudged.2⟩

/-- A use that is not allowed is not allowed in the larger model, by the same classes at least. -/
theorem exists_violation_within {violation : RuleViolation}
    (hviolation : rules.IsViolation small violation) (hkind : violation.kind = .disallowed) :
    ∃ w, rules.IsViolation large w ∧ w.kind = .disallowed ∧ w.source = violation.source
      ∧ w.target = violation.target ∧ violation.vias ⊆ w.vias := by
  obtain ⟨p, q, kind, vias⟩ := violation
  obtain rfl : kind = .disallowed := hkind
  obtain ⟨⟨hjudged, hopinions⟩, hvias⟩ := hviolation
  have hjudged' : rules.Judged large p q := hjudged.within hsmall hlarge h
  obtain ⟨source, target, hp, hq, -⟩ :=
    (Model.uses_iff hlarge.wellFormed hlarge.indexed).mp hjudged'.1
  have hvias' : large.IsViaOf p q (large.viaNames source target) := ⟨source, target, hp, hq, rfl⟩
  exact ⟨⟨p, q, .disallowed, large.viaNames source target⟩, ⟨⟨hjudged', hopinions⟩, hvias'⟩, rfl,
    rfl, rfl, h.vias_subset hsmall hlarge hvias hvias'⟩

theorem evaluate_within {report : RuleReport} (hreport : rules.evaluate large = .ok report) :
    ∃ less, rules.evaluate small = .ok less ∧ less.Within report := by
  have hverdict := isVerdict_evaluate rules hsmall.wellFormed hsmall.indexed
  have hverdict' := isVerdict_evaluate rules hlarge.wellFormed hlarge.indexed
  cases hless : rules.evaluate small with
  | error e =>
      -- What can not be decided in the smaller model can not be decided in the larger one.
      obtain ⟨p, q, hjudged, hambiguous⟩ := hverdict.error_iff.mp ⟨e, hless⟩
      obtain ⟨e', he'⟩ :=
        hverdict'.error_iff.mpr ⟨p, q, hjudged.within hsmall hlarge h, hambiguous⟩
      rw [hreport] at he'
      exact nomatch he'
  | ok less =>
      obtain ⟨hunused, hundefined⟩ := unused_of_evaluate hless
      obtain ⟨hunused', hundefined'⟩ := unused_of_evaluate hreport
      refine ⟨less, rfl, ?_, ?_, ?_⟩
      · intro v hv hkind
        have hviolation := (hverdict.mem_violations less hless v).mp hv
        obtain ⟨w, hw, hrest⟩ := exists_violation_within hsmall hlarge h hviolation hkind
        exact ⟨w, (hverdict'.mem_violations report hreport w).mpr hw, hrest⟩
      · rw [hundefined, hundefined']
        exact undefined_subset h
      · rw [hunused, hunused']
        exact unused_subset h

end Within

end RuleSet

/-- Every cycle of the smaller model is part of one of the larger model. -/
theorem Model.exists_cycle_within {small large : Model} (hsmall : small.Linked)
    (hlarge : large.Linked) (h : small.Within large) {scope : CycleScope} {allow : Bool}
    {cycle : Cycle} (hcycle : cycle ∈ (small.detectCycles scope allow []).cycles) :
    ∃ other ∈ (large.detectCycles scope allow []).cycles, cycle.members ⊆ other.members := by
  obtain ⟨hall, -⟩ := mem_cycles.mp hcycle
  have hcyclic := (isCyclic_iff hsmall.wellFormed).mpr ⟨cycle, hall, rfl⟩
  obtain ⟨more, hmore, hsub⟩ := h.exists_isCyclic hsmall hlarge hcyclic
  obtain ⟨other, hother, rfl⟩ := (isCyclic_iff hlarge.wellFormed).mp hmore
  exact ⟨other, mem_cycles.mpr ⟨hother, by simp⟩, fun _ hmem => hsub hmem⟩

/-- **With more classes, what is found wrong stays wrong.**  If the rules have an answer for all
classes they have one for some of them, which finds no more disallowed dependencies and no more
packages without a rule, and as many unused declarations at least; and the cycles of some of the
classes are parts of cycles of all. -/
theorem findings_grow (filter : PackageFilter) (rules : RuleSet)
    (records more : List ClassRecord) (sources sources' : List SourceRecord)
    (hclasses : (Model.assemble filter (records ++ more) sources').ClassesIndexed)
    (hpackages : (Model.assemble filter (records ++ more) sources').Indexed) :
    (∀ report, rules.evaluate (Model.assemble filter (records ++ more) sources') = .ok report →
      ∃ less, rules.evaluate (Model.assemble filter records sources) = .ok less
        ∧ less.Within report)
    ∧ ∀ scope allow,
      ∀ cycle ∈ ((Model.assemble filter records sources).detectCycles scope allow []).cycles,
        ∃ other ∈ ((Model.assemble filter (records ++ more) sources').detectCycles scope allow
          []).cycles, cycle.members ⊆ other.members := by
  have hlarge := Model.assemble_linked filter (records ++ more) sources' hclasses hpackages
  have hsmall := Model.assemble_linked filter records sources
    (Model.classesIndexed_of_append hclasses) (Model.indexed_of_append hpackages)
  have hwithin : (Model.assemble filter records sources).Within _ :=
    Model.assemble_within hclasses hpackages
  refine ⟨?_, ?_⟩
  · intro report hreport
    exact RuleSet.evaluate_within hsmall hlarge hwithin hreport
  · intro scope allow cycle hcycle
    exact Model.exists_cycle_within hsmall hlarge hwithin hcycle

/-- Two classes that use each other. -/
def coupledRecords : List ClassRecord :=
  [{ name := "app.Main", references := [("lib.Store", 1)] },
    { name := "lib.Store", references := [("app.Main", 1)] }]

/-- A record that comes too late, and two classes that widen the cycle. -/
def laterRecords : List ClassRecord :=
  [{ name := "app.Main", references := [("other.Thing", 1)] },
    { name := "app.Extra", references := [("lib.Store", 1), ("ui.View", 1)] },
    { name := "ui.View", references := [("app.Main", 1)] }]

/-- Rules that deny a use, with a rule for a package that comes later. -/
def layers : RuleSet where
  mode := .allowByDefault
  rules := [{ pattern := .exact "app", uses := { mustNot := [.exact "lib"] } },
    { pattern := .exact "ui" }]

theorem layers_grow : ∃ less report,
    layers.evaluate (Model.assemble {} coupledRecords []) = .ok less
      ∧ layers.evaluate (Model.assemble {} (coupledRecords ++ laterRecords) []) = .ok report
      ∧ less.Within report ∧ less.unused = [⟨"ui", none, "ui"⟩] ∧ report.unused = []
      ∧ ∀ cycle ∈ ((Model.assemble {} coupledRecords []).detectCycles .packages false []).cycles,
        ∃ other ∈ ((Model.assemble {} (coupledRecords ++ laterRecords) []).detectCycles .packages
          false []).cycles, cycle.members ⊆ other.members := by
  have hclasses : (Model.assemble {} (coupledRecords ++ laterRecords) []).ClassesIndexed := by
    unfold Model.ClassesIndexed
    decide +kernel
  have hpackages : (Model.assemble {} (coupledRecords ++ laterRecords) []).Indexed := by
    unfold Model.Indexed
    decide +kernel
  obtain ⟨hrules, hcycles⟩ := findings_grow {} layers coupledRecords laterRecords [] [] hclasses
    hpackages
  cases hreport : layers.evaluate (Model.assemble {} (coupledRecords ++ laterRecords) []) with
  | error e =>
      have hok : (layers.evaluate
          (Model.assemble {} (coupledRecords ++ laterRecords) [])).isOk = true := by
        decide +kernel
      rw [hreport] at hok
      exact nomatch hok
  | ok report =>
      obtain ⟨less, hless, hwithin⟩ := hrules report hreport
      refine ⟨less, report, hless, rfl, hwithin, ?_, ?_, hcycles .packages false⟩
      · rw [(RuleSet.unused_of_evaluate hless).1]
        decide +kernel
      · rw [(RuleSet.unused_of_evaluate hreport).1]
        decide +kernel

end PackageAudit
