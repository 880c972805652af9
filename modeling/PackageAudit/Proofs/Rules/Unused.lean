/-
Declarations without packages, and packages without rules.

Every rule that is not optional declares its own pattern and the targets of its relations.  The
evaluation counts packages for each declaration under the texts of its patterns, so two
declarations that look the same would share a count, and one that is used would hide one that is
not.  Sealing rules that out: all patterns of sealed rules were read from texts, and patterns that
are read are told apart by their texts.  So the report names exactly the declarations that stand
for no package, each of them once.
-/
import Mathlib.Data.Set.List
import PackageAudit.Proofs.Rules.Evaluation
import PackageAudit.Proofs.Rules.SealedRules

namespace PackageAudit

open Ascending

/-! ### The order of the report -/

/-- The order of relations in a report: none at all, then the kinds one after the other. -/
def RelationKind.Precedes : Option RelationKind → Option RelationKind → Prop
  | _, none => False
  | none, some _ => True
  | some kind, some other => all.idxOf kind < all.idxOf other

/-- The order of unused declarations: by the text of the rule, by relation, then by the text of the
pattern. -/
def UnusedRule.Precedes (a b : UnusedRule) : Prop :=
  a.rule < b.rule ∨ a.rule = b.rule ∧ (RelationKind.Precedes a.relation b.relation
    ∨ a.relation = b.relation ∧ a.pattern < b.pattern)

theorem RelationKind.idxOf_all (kind : RelationKind) : all.idxOf kind = kind.rank := by
  obtain ⟨direction, modality⟩ := kind
  cases direction <;> cases modality <;> rfl

theorem RelationKind.compare_lt {a b : Option RelationKind} :
    compare a b = .lt ↔ Precedes a b := by
  cases b with
  | none => cases a <;> simp [Precedes, compare]
  | some other =>
      cases a with
      | none => simp [Precedes, compare]
      | some kind =>
          show compare kind.rank other.rank = .lt ↔ all.idxOf kind < all.idxOf other
          rw [idxOf_all, idxOf_all, Nat.compare_eq_lt]

theorem UnusedRule.compare_lt {a b : UnusedRule} : compare a b = .lt ↔ a.Precedes b := by
  show (compare a.rule b.rule).then ((compare a.relation b.relation).then
    (compare a.pattern b.pattern)) = .lt ↔ _
  rw [Ordering.then_eq_lt, Ordering.then_eq_lt, compare_string_lt, compare_string_lt,
    RelationKind.compare_lt, Std.LawfulEqOrd.compare_eq_iff_eq, Std.LawfulEqOrd.compare_eq_iff_eq]
  rfl

/-! ### Declarations -/

/-- A pattern as a rule declares it: for itself, or as a target of a relation. -/
structure DeclaredPattern where
  rule : PackagePattern
  relation : Option RelationKind
  pattern : PackagePattern
  deriving DecidableEq, Repr

namespace DeclaredPattern

/-- The entry of a declaration in a report. -/
def entry (declared : DeclaredPattern) : UnusedRule :=
  ⟨declared.rule.text, declared.relation, declared.pattern.text⟩

/-- Whether a declaration stands for no package of a model. -/
def IsIdle (declared : DeclaredPattern) (model : Model) : Prop :=
  ∀ package ∈ model.packages, declared.pattern.covers package.name = false

end DeclaredPattern

/-- Whether a rule declares a pattern: its own, or one of the targets of a kind. -/
def Rule.Declares (rule : Rule) (declared : DeclaredPattern) : Prop :=
  declared.rule = rule.pattern ∧ (declared.relation = none ∧ declared.pattern = rule.pattern
    ∨ ∃ kind, declared.relation = some kind ∧ declared.pattern ∈ rule.targets kind)

theorem Rule.declares_iff {rule : Rule} {declared : DeclaredPattern} : rule.Declares declared ↔
    declared.rule = rule.pattern
      ∧ (declared.relation, declared.pattern) ∈ RuleSet.declaredPatterns rule := by
  have hall : ∀ kind, kind ∈ RelationKind.all := by
    rintro ⟨direction, modality⟩
    cases direction <;> cases modality <;> decide
  refine and_congr_right fun _ => ?_
  rw [RuleSet.declaredPatterns, List.mem_cons, List.mem_flatMap, Prod.mk.injEq]
  refine or_congr_right (exists_congr fun kind => ?_)
  simp only [hall, true_and, List.mem_map, Prod.mk.injEq]
  refine ⟨?_, ?_⟩
  · rintro ⟨hrelation, htarget⟩
    exact ⟨_, htarget, hrelation.symm, rfl⟩
  · rintro ⟨target, htarget, hrelation, rfl⟩
    exact ⟨hrelation.symm, htarget⟩

namespace RuleSet

variable {rules : RuleSet} {model : Model}

/-- Whether one of the rules that are not optional declares a pattern. -/
def Declares (rules : RuleSet) (declared : DeclaredPattern) : Prop :=
  ∃ rule ∈ rules.rules, rule.optional = false ∧ rule.Declares declared

theorem mem_declarations {unused : UnusedRule} {pattern : PackagePattern} :
    (unused, pattern) ∈ rules.declarations ↔
      ∃ declared, rules.Declares declared ∧ declared.entry = unused
        ∧ declared.pattern = pattern := by
  simp only [declarations, List.mem_flatMap, List.mem_filter, List.mem_map, Prod.exists,
    Prod.mk.injEq, Bool.not_eq_true']
  refine ⟨?_, ?_⟩
  · rintro ⟨rule, ⟨hrule, hoptional⟩, relation, target, hmem, rfl, rfl⟩
    exact ⟨⟨rule.pattern, relation, target⟩,
      ⟨rule, hrule, hoptional, Rule.declares_iff.mpr ⟨rfl, hmem⟩⟩, rfl, rfl⟩
  · rintro ⟨declared, ⟨rule, hrule, hoptional, hdeclares⟩, rfl, rfl⟩
    obtain ⟨heq, hmem⟩ := Rule.declares_iff.mp hdeclares
    refine ⟨rule, ⟨hrule, hoptional⟩, declared.relation, declared.pattern, hmem, ?_, rfl⟩
    rw [← heq]
    rfl

/-- An entry is reported if all declarations behind it stand for no package. -/
theorem mem_unused_iff {unused : UnusedRule} : unused ∈ rules.unused model ↔
    (∃ declared, rules.Declares declared ∧ declared.entry = unused)
      ∧ ∀ declared, rules.Declares declared → declared.entry = unused → declared.IsIdle model := by
  simp only [mem_unused, mem_declarations, matching_eq_nil_iff]
  refine and_congr ?_ ?_
  · refine ⟨?_, ?_⟩
    · rintro ⟨_, declared, hdeclared, hentry, -⟩
      exact ⟨declared, hdeclared, hentry⟩
    · rintro ⟨declared, hdeclared, hentry⟩
      exact ⟨_, declared, hdeclared, hentry, rfl⟩
  · refine ⟨?_, ?_⟩
    · intro h declared hdeclared hentry
      exact h _ ⟨declared, hdeclared, hentry, rfl⟩
    · rintro h _ ⟨declared, hdeclared, hentry, rfl⟩
      exact h declared hdeclared hentry

end RuleSet

/-! ### Sealed rules -/

/-- Whether a pattern can be read from a text. -/
def PackagePattern.IsRead (pattern : PackagePattern) : Prop :=
  ∃ text, ofText? text = some pattern

theorem PackagePattern.IsRead.text_inj {pattern other : PackagePattern} (h : pattern.IsRead)
    (hother : other.IsRead) (heq : pattern.text = other.text) : pattern = other := by
  obtain ⟨_, htext⟩ := h
  obtain ⟨_, htext'⟩ := hother
  exact text_inj_of_ofText? htext htext' heq

theorem PackagePattern.isRead_every : every.IsRead := ⟨"*", by decide +kernel⟩

namespace RuleDeclarations

open PackagePattern

variable {declarations : RuleDeclarations} {rules : RuleSet}

/-- All patterns of sealed rules were read, but for the one that stands for everyone, which could
be. -/
theorem isRead_of_declares (hseal : declarations.seal = .ok rules) {declared : DeclaredPattern}
    (h : rules.Declares declared) : declared.rule.IsRead ∧ declared.pattern.IsRead := by
  obtain ⟨-, -, rfl⟩ := (seal_eq_ok_iff_sealedRules _).mp hseal
  obtain ⟨rule, hrule, -, hpattern, hkind⟩ := h
  obtain ⟨pattern, hmem, rfl⟩ := List.mem_map.mp hrule
  obtain ⟨text, -, htext⟩ := (mem_patterns _).mp (List.mem_eraseDups.mp hmem)
  have hread : pattern.IsRead := ⟨text, htext⟩
  have hrule : declared.rule.IsRead := by
    rw [hpattern]
    exact hread
  refine ⟨hrule, ?_⟩
  rcases hkind with ⟨-, hown⟩ | ⟨kind, -, htarget⟩
  · rw [hown]
    exact hread
  · rcases (mem_targets_ruleOf _).mp htarget with ⟨relation, -, hdeclares⟩ | ⟨-, -, hevery⟩
    · obtain ⟨_, -, text, -, target, htext, heq⟩ := hdeclares
      obtain ⟨-, -, rfl⟩ := Sealing.edgeOf_inj.mp heq
      exact ⟨text, htext⟩
    · rw [hevery]
      exact isRead_every

/-- No two declarations of sealed rules look the same. -/
theorem entry_inj (hseal : declarations.seal = .ok rules) {declared other : DeclaredPattern}
    (h : rules.Declares declared) (hother : rules.Declares other)
    (heq : declared.entry = other.entry) : declared = other := by
  obtain ⟨hrule, hpattern⟩ := isRead_of_declares hseal h
  obtain ⟨hrule', hpattern'⟩ := isRead_of_declares hseal hother
  obtain ⟨hr, hrelation, hp⟩ := UnusedRule.mk.inj heq
  cases declared
  cases other
  rw [DeclaredPattern.mk.injEq]
  exact ⟨hrule.text_inj hrule' hr, hrelation, hpattern.text_inj hpattern' hp⟩

theorem mem_unused_of_seal (hseal : declarations.seal = .ok rules) {model : Model}
    {unused : UnusedRule} : unused ∈ rules.unused model ↔
      ∃ declared, (rules.Declares declared ∧ declared.IsIdle model)
        ∧ declared.entry = unused := by
  rw [RuleSet.mem_unused_iff]
  refine ⟨?_, ?_⟩
  · rintro ⟨⟨declared, hdeclared, hentry⟩, hall⟩
    exact ⟨declared, ⟨hdeclared, hall declared hdeclared hentry⟩, hentry⟩
  · rintro ⟨declared, ⟨hdeclared, hidle⟩, rfl⟩
    refine ⟨⟨declared, hdeclared, rfl⟩, ?_⟩
    intro other hother hentry
    rw [entry_inj hseal hother hdeclared hentry]
    exact hidle

/-- The unused entries are those of a list of declarations, with none twice. -/
theorem exists_idle (hseal : declarations.seal = .ok rules) (model : Model) :
    ∃ idle : List DeclaredPattern, rules.unused model = idle.map DeclaredPattern.entry
      ∧ idle.Nodup
      ∧ ∀ declared, declared ∈ idle ↔ rules.Declares declared ∧ declared.IsIdle model := by
  have hrange : rules.unused model ∈ Set.range (List.map fun declared :
      { declared // rules.Declares declared ∧ declared.IsIdle model } => declared.1.entry) := by
    rw [Set.range_list_map]
    intro unused hunused
    obtain ⟨declared, hidle, hentry⟩ := (mem_unused_of_seal hseal).mp hunused
    exact ⟨⟨declared, hidle⟩, hentry⟩
  obtain ⟨idle, hidle⟩ := hrange
  have hunused : rules.unused model = (idle.map Subtype.val).map DeclaredPattern.entry := by
    rw [List.map_map]
    exact hidle.symm
  refine ⟨idle.map Subtype.val, hunused, ?_, ?_⟩
  · refine List.Nodup.of_map DeclaredPattern.entry ?_
    rw [← hunused]
    exact (RuleSet.isAscending_unused rules model).nodup
  · intro declared
    refine ⟨?_, ?_⟩
    · intro hmem
      obtain ⟨found, -, rfl⟩ := List.mem_map.mp hmem
      exact found.2
    · intro hdeclared
      have hentry := (mem_unused_of_seal hseal).mpr ⟨declared, hdeclared, rfl⟩
      rw [hunused] at hentry
      obtain ⟨found, hfound, heq⟩ := List.mem_map.mp hentry
      obtain ⟨other, -, rfl⟩ := List.mem_map.mp hfound
      rw [← entry_inj hseal other.2.1 hdeclared.1 heq]
      exact hfound

end RuleDeclarations

/-! ### The report -/

namespace RuleSet

/-- Whether a report names what rules and a model leave over: the declarations that stand for no
package, and the packages that no rule stands for. -/
structure IsRemainder (rules : RuleSet) (model : Model) (report : RuleReport) : Prop where
  unused : ∃ idle : List DeclaredPattern, report.unused = idle.map DeclaredPattern.entry
    ∧ idle.Nodup ∧ ∀ declared, declared ∈ idle ↔ rules.Declares declared ∧ declared.IsIdle model
  unused_sorted : report.unused.Pairwise UnusedRule.Precedes
  undefined : ∀ name, name ∈ report.undefined ↔
    (∃ package ∈ model.packages, package.name = name)
      ∧ ∀ rule ∈ rules.rules, rule.pattern.covers name = false
  undefined_sorted : report.undefined.Pairwise (· < ·)

theorem isAscending_undefined {rules : RuleSet} {model : Model} (h : model.WellFormed) :
    IsAscending (rules.undefined model) := by
  have hsub : (rules.undefined model).Sublist (model.packages.toList.map (·.name)) :=
    List.filter_sublist.map _
  exact List.Pairwise.sublist hsub h.packages_ascending

/-- **The report names what is left over, and nothing else.**  Of sealed rules each declaration that
stands for no package is there once, whatever else is declared beside it, and so is each package
that no rule stands for, be it that of an external. -/
theorem evaluate_reports_remainder {declarations : RuleDeclarations} {rules : RuleSet}
    (hseal : declarations.seal = .ok rules) (filter : PackageFilter) (records : List ClassRecord)
    (sources : List SourceRecord) {report : RuleReport}
    (heval : rules.evaluate (Model.assemble filter records sources) = .ok report) :
    rules.IsRemainder (Model.assemble filter records sources) report := by
  obtain ⟨hunused, hundefined⟩ := unused_of_evaluate heval
  refine ⟨?_, ?_, ?_, ?_⟩
  · rw [hunused]
    exact RuleDeclarations.exists_idle hseal _
  · rw [hunused]
    exact (isAscending_unused _ _).imp UnusedRule.compare_lt.mp
  · intro name
    rw [hundefined, mem_undefined, owners, List.filter_eq_nil_iff]
    simp only [Bool.not_eq_true]
  · rw [hundefined]
    exact (isAscending_undefined (Model.assemble_wellFormed _ _ _)).imp compare_string_lt.mp

/-- Rules that name one package again and again that is not there. -/
def staleDeclarations : RuleDeclarations where
  mode := .denyByDefault
  rules := ["nowhere.*", "gone"]
  relations := [⟨"app.api", ⟨.usedBy, .mustNot⟩, ["gone"]⟩,
    ⟨"app.api", ⟨.uses, .may⟩, ["lib.*", " gone", "gone"]⟩]
  externals := ["javax.*"]

/-- The rules that they are sealed to. -/
def staleRules : RuleSet where
  mode := .denyByDefault
  rules := [{ pattern := .below "nowhere" }, { pattern := .exact "gone" },
    { pattern := .exact "app.api", uses := { may := [.below "lib", .exact "gone"] },
      usedBy := { mustNot := [.exact "gone"] } },
    { pattern := .below "javax", usedBy := { may := [.every] }, optional := true }]

/-- Each of the declarations is reported, and the external one is not. -/
theorem staleRules_remainder : staleDeclarations.seal = .ok staleRules ∧ ∃ report,
    staleRules.evaluate (Model.assemble {} bridgeRecords []) = .ok report
      ∧ staleRules.IsRemainder (Model.assemble {} bridgeRecords []) report
      ∧ report.unused = [⟨"app.api", some ⟨.uses, .may⟩, "gone"⟩,
        ⟨"app.api", some ⟨.usedBy, .mustNot⟩, "gone"⟩, ⟨"gone", none, "gone"⟩,
        ⟨"nowhere.*", none, "nowhere.*"⟩]
      ∧ report.undefined = ["lib.impl"] := by
  have hseal : staleDeclarations.seal = .ok staleRules := by decide +kernel
  have heval : staleRules.evaluate (Model.assemble {} bridgeRecords [])
      = .ok ⟨[], [⟨"app.api", some ⟨.uses, .may⟩, "gone"⟩,
        ⟨"app.api", some ⟨.usedBy, .mustNot⟩, "gone"⟩, ⟨"gone", none, "gone"⟩,
        ⟨"nowhere.*", none, "nowhere.*"⟩], ["lib.impl"]⟩ := by decide +kernel
  exact ⟨hseal, _, heval, evaluate_reports_remainder hseal {} bridgeRecords [] heval, rfl, rfl⟩

end RuleSet

end PackageAudit
