/-
What becomes of a dependency that no relation speaks of.

Where dependencies are denied by default, one that no relation allows is reported, whether a rule
stands for the using package or not.  Where they are allowed by default, one that no relation
denies is not.  A dependency on an external package needs no allowance of its own: the rule of
the external package allows everyone to use it, so that in either mode only a denial can touch
it.
-/
import PackageAudit.Proofs.Rules.Precedence
import PackageAudit.Proofs.Rules.SealedRules

namespace PackageAudit

/-- Whether a package belongs to a declared external. -/
def RuleDeclarations.IsExternal (declarations : RuleDeclarations) (package : String) : Prop :=
  ∃ pattern ∈ declarations.externalPatterns, pattern.covers package = true

theorem RuleDeclarations.mem_sealedRules {declarations : RuleDeclarations} {rule : Rule} :
    rule ∈ declarations.sealedRules.rules ↔
      ∃ pattern ∈ declarations.patterns, rule = declarations.ruleOf pattern := by
  simp only [sealedRules, List.mem_map, List.mem_eraseDups, eq_comm]

namespace RuleSet

variable {rules : RuleSet} {model : Model} {report : RuleReport} {p q : String} {opinion : Opinion}

/-- Whether a relation allows a dependency: one of an owner of the using package, or one that a
rule of the used package declares for its users. -/
def Allowance (rules : RuleSet) (p q : String) : Prop :=
  (∃ rule, rules.Owns rule p ∧ (rule.uses.allowing q).Nonempty) ∨ (rules.usersAllowed p q).Nonempty

/-- Whether a relation denies a dependency: one of an owner of the using package, or one that a
rule of the used package declares for its users. -/
def Denial (rules : RuleSet) (p q : String) : Prop :=
  (∃ rule, rules.Owns rule p ∧ (rule.uses.denying q).Nonempty) ∨ (rules.usersDenied p q).Nonempty

/-! ### Opinions without a relation -/

theorem exists_holds (rules : RuleSet) (p q : String) : ∃ opinion, rules.Holds p q opinion := by
  by_cases howned : ∃ rule, rules.Owns rule p
  · obtain ⟨rule, hrule⟩ := howned
    exact ⟨_, Or.inl ⟨rule, hrule, rfl⟩⟩
  · exact ⟨_, Or.inr ⟨fun rule hrule => howned ⟨rule, hrule⟩, rfl⟩⟩

/-- A number that opinions on a dependency give, by the patterns that it is taken from: those of
the owner who holds the opinion, and those of the rules of the used package. -/
structure Measures (rules : RuleSet) (p q : String) (measure : Opinion → Nat)
    (own : Rule → Set PackagePattern) (users : Set PackagePattern) : Prop where
  owned : ∀ rule, measure (rules.opinion rule p q) = max (strongest (own rule)) (strongest users)
  unowned : measure (rules.opinionOnUnowned p q) = strongest users

namespace Measures

variable {measure : Opinion → Nat} {own : Rule → Set PackagePattern} {users : Set PackagePattern}

theorem nonempty (h : rules.Measures p q measure own users) (hholds : rules.Holds p q opinion)
    (hne : measure opinion ≠ 0) :
    (∃ rule, rules.Owns rule p ∧ (own rule).Nonempty) ∨ users.Nonempty := by
  rcases hholds with ⟨rule, hrule, rfl⟩ | ⟨-, rfl⟩
  · rw [h.owned, max_strongest_ne_zero] at hne
    exact hne.imp_left fun hown => ⟨rule, hrule, hown⟩
  · rw [h.unowned, strongest_ne_zero_iff] at hne
    exact Or.inr hne

/-- What the rules of the used package say, everyone hears. -/
theorem ne_zero_of_users (h : rules.Measures p q measure own users)
    (hholds : rules.Holds p q opinion) (husers : users.Nonempty) : measure opinion ≠ 0 := by
  rcases hholds with ⟨rule, -, rfl⟩ | ⟨-, rfl⟩
  · rw [h.owned, max_strongest_ne_zero]
    exact Or.inr husers
  · rw [h.unowned, strongest_ne_zero_iff]
    exact husers

end Measures

theorem measures_allowed (rules : RuleSet) (p q : String) :
    rules.Measures p q (·.allowed) (·.uses.allowing q) (rules.usersAllowed p q) :=
  ⟨fun _ => rfl, rfl⟩

theorem measures_denied (rules : RuleSet) (p q : String) :
    rules.Measures p q (·.denied) (·.uses.denying q) (rules.usersDenied p q) :=
  ⟨fun _ => rfl, rfl⟩

/-! ### The default -/

/-- Denied by default and allowed by no relation. -/
theorem isDisallowed_of_not_allowance (hmode : rules.mode = .denyByDefault)
    (hjudged : rules.Judged model p q) (hnone : ¬rules.Allowance p q) :
    rules.IsDisallowed model p q := by
  have hzero : ∀ {opinion : Opinion}, rules.Holds p q opinion → opinion.allowed = 0 :=
    fun hholds => not_not.mp fun hne => hnone ((rules.measures_allowed p q).nonempty hholds hne)
  obtain ⟨opinion, hholds⟩ := rules.exists_holds p q
  refine ⟨hjudged, ⟨opinion, hholds, Or.inr ⟨hmode, hzero hholds⟩⟩, ?_⟩
  intro o ho hallows
  rcases hallows with hlt | ⟨hallow, -⟩
  · rw [hzero ho] at hlt
    exact absurd hlt (Nat.not_lt_zero _)
  · rw [hmode] at hallow
    cases hallow

/-- Allowed by default, or by the rules of the used package, and denied by no relation. -/
theorem not_denies_of_not_denial
    (hallowed : rules.mode = .allowByDefault ∨ (rules.usersAllowed p q).Nonempty)
    (hnone : ¬rules.Denial p q) (hholds : rules.Holds p q opinion) :
    ¬opinion.Denies rules.mode := by
  have hzero : opinion.denied = 0 :=
    not_not.mp fun hne => hnone ((rules.measures_denied p q).nonempty hholds hne)
  intro hdenies
  rcases hdenies with hlt | ⟨hdeny, hallows⟩
  · omega
  · rcases hallowed with hmode | husers
    · rw [hmode] at hdeny
      cases hdeny
    · exact (rules.measures_allowed p q).ne_zero_of_users hholds husers hallows

theorem not_isDisallowed_of_not_denial
    (hallowed : rules.mode = .allowByDefault ∨ (rules.usersAllowed p q).Nonempty)
    (hnone : ¬rules.Denial p q) : ¬rules.IsDisallowed model p q := by
  intro hdisallowed
  obtain ⟨-, ⟨opinion, hholds, hdenies⟩, -⟩ := hdisallowed
  exact not_denies_of_not_denial hallowed hnone hholds hdenies

theorem not_isAmbiguous_of_not_denial (hnone : ¬rules.Denial p q) :
    ¬rules.IsAmbiguous model p q := by
  intro hambiguous
  obtain ⟨-, opinion, hholds, hne, heq⟩ := hambiguous
  rw [heq] at hne
  exact hnone ((rules.measures_denied p q).nonempty hholds hne)

/-- A dependency that is there and is not disallowed is not reported at all. -/
theorem not_reported (h : model.WellFormed) (hidx : model.Indexed)
    (hok : rules.evaluate model = .ok report) (huses : model.Uses p q)
    (hallowed : ¬rules.IsDisallowed model p q) {violation : RuleViolation}
    (hmem : violation ∈ report.violations) : ¬(violation.source = p ∧ violation.target = q) := by
  have hviolation := ((rules.isVerdict_evaluate h hidx).mem_violations report hok _).mp hmem
  obtain ⟨source, target, kind, vias⟩ := violation
  intro hnames
  obtain ⟨rfl, rfl⟩ := hnames
  cases kind with
  | disallowed => exact hallowed hviolation.1
  | missingMandatory => exact hviolation.1.2.2.2.2 huses

end RuleSet

/-- The rule of an external package allows everyone to use it. -/
theorem RuleDeclarations.usersAllowed_of_isExternal {declarations : RuleDeclarations} {q : String}
    (h : declarations.IsExternal q) (p : String) :
    (declarations.sealedRules.usersAllowed p q).Nonempty := by
  obtain ⟨pattern, hpattern, hcovers⟩ := h
  have hmem : declarations.ruleOf pattern ∈ declarations.sealedRules.rules :=
    mem_sealedRules.mpr ⟨pattern, List.mem_append_right _ hpattern, rfl⟩
  have hevery : PackagePattern.every ∈ (declarations.ruleOf pattern).targets ⟨.usedBy, .may⟩ :=
    (declarations.mem_targets_ruleOf).mpr (Or.inr ⟨rfl, hpattern, rfl⟩)
  exact ⟨.every, declarations.ruleOf pattern, ⟨hmem, hcovers⟩, Or.inl hevery, rfl⟩

/-- **The closure of a rule set.**  A dependency that no relation allows is reported where that is
denied by default, and one that no relation denies is not reported where it is allowed by default,
or where the used package is external.  In the latter case it can not be what the evaluation fails
for. -/
theorem RuleDeclarations.closure_law (declarations : RuleDeclarations) (rules : RuleSet)
    (hsealed : declarations.seal = .ok rules) (filter : PackageFilter)
    (records : List ClassRecord) (sources : List SourceRecord)
    (hidx : (Model.assemble filter records sources).Indexed) (p q : String)
    (huses : (Model.assemble filter records sources).Uses p q) :
    (∀ report, rules.evaluate (Model.assemble filter records sources) = .ok report →
      (rules.mode = .denyByDefault → ¬rules.IsSelf p q → ¬rules.Allowance p q →
        report.Disallows p q) ∧
      (rules.mode = .allowByDefault → ¬rules.Denial p q → ∀ violation ∈ report.violations,
        ¬(violation.source = p ∧ violation.target = q)) ∧
      (declarations.IsExternal q → ¬rules.Denial p q → ¬report.Disallows p q)) ∧
    (declarations.IsExternal q → ¬rules.Denial p q →
      ¬rules.IsAmbiguous (Model.assemble filter records sources) p q ∧
      ∀ rule, rules.evaluate (Model.assemble filter records sources)
        ≠ .error (.ambiguous rule p q)) := by
  have hwf := Model.assemble_wellFormed filter records sources
  obtain ⟨-, -, rfl⟩ := declarations.seal_eq_ok_iff_sealedRules.mp hsealed
  refine ⟨?_, ?_⟩
  · intro report hok
    refine ⟨?_, ?_, ?_⟩
    · intro hmode hself hnone
      rw [RuleSet.disallows_iff hwf hidx hok]
      exact RuleSet.isDisallowed_of_not_allowance hmode ⟨huses, hself⟩ hnone
    · intro hmode hnone violation hmem
      exact RuleSet.not_reported hwf hidx hok huses
        (RuleSet.not_isDisallowed_of_not_denial (Or.inl hmode) hnone) hmem
    · intro hexternal hnone
      rw [RuleSet.disallows_iff hwf hidx hok]
      exact RuleSet.not_isDisallowed_of_not_denial
        (Or.inr (usersAllowed_of_isExternal hexternal p)) hnone
  · intro hexternal hnone
    have hclear : ¬declarations.sealedRules.IsAmbiguous
        (Model.assemble filter records sources) p q :=
      RuleSet.not_isAmbiguous_of_not_denial hnone
    refine ⟨hclear, ?_⟩
    intro rule herror
    obtain ⟨p', q', opinion, heq, hjudged, hholds, hambiguous, -⟩ :=
      (RuleSet.isVerdict_evaluate _ hwf hidx).error_first _ herror
    obtain ⟨-, rfl, rfl⟩ := RuleSetError.ambiguous.inj heq
    exact hclear ⟨hjudged, opinion, hholds, hambiguous⟩

/-- A rule without relations, with some externals beside it. -/
def guardDeclarations (externals : List String) : RuleDeclarations where
  mode := .denyByDefault
  rules := ["app.api"]
  externals := externals

/-- The rules without externals. -/
def guardRules : RuleSet where
  mode := .denyByDefault
  rules := [{ pattern := .exact "app.api" }]

/-- The rules with the packages of `lib` as externals. -/
def openGuardRules : RuleSet where
  mode := .denyByDefault
  rules := [{ pattern := .exact "app.api" },
    { pattern := .below "lib", usedBy := { may := [.every] }, optional := true }]

/-- The use of a package is reported unless the package is external. -/
theorem guardRules_closure :
    ((guardDeclarations []).seal = .ok guardRules ∧ ∃ report,
      guardRules.evaluate (Model.assemble {} RuleSet.bridgeRecords []) = .ok report
        ∧ report.Disallows "app.api" "lib.impl") ∧
    (guardDeclarations ["lib.*"]).seal = .ok openGuardRules ∧ ∃ report,
      openGuardRules.evaluate (Model.assemble {} RuleSet.bridgeRecords []) = .ok report
        ∧ ¬report.Disallows "app.api" "lib.impl" := by
  have hsealed : (guardDeclarations []).seal = .ok guardRules := by decide +kernel
  have hopen : (guardDeclarations ["lib.*"]).seal = .ok openGuardRules := by decide +kernel
  have hok : guardRules.evaluate (Model.assemble {} RuleSet.bridgeRecords [])
      = .ok ⟨[⟨"app.api", "lib.impl", .disallowed, ["app.api.Client"]⟩], [], ["lib.impl"]⟩ := by
    decide +kernel
  have hok' : openGuardRules.evaluate (Model.assemble {} RuleSet.bridgeRecords [])
      = .ok ⟨[], [], []⟩ := by decide +kernel
  have hself : ¬guardRules.IsSelf "app.api" "lib.impl" :=
    fun hc => absurd (RuleSet.isSelfReference_iff.mpr hc) (by decide +kernel)
  have hallowance : ¬guardRules.Allowance "app.api" "lib.impl" := by
    simp [RuleSet.Allowance, RuleSet.usersAllowed, RuleSet.Owns, guardRules, Relations.allowing]
  have hdenial : ¬openGuardRules.Denial "app.api" "lib.impl" := by
    have hnone : ∀ rule ∈ openGuardRules.rules,
        rule.uses.mustNot = [] ∧ rule.usedBy.mustNot = [] := by decide +kernel
    intro hc
    rcases hc with ⟨rule, hrule, pattern, hpattern, -⟩ | ⟨pattern, rule, hrule, hpattern, -⟩
    · rw [(hnone rule hrule.1).1] at hpattern
      exact List.not_mem_nil hpattern
    · rw [(hnone rule hrule.1).2] at hpattern
      exact List.not_mem_nil hpattern
  have hexternal : (guardDeclarations ["lib.*"]).IsExternal "lib.impl" :=
    ⟨.below "lib", by decide +kernel, by decide +kernel⟩
  obtain ⟨hclosed, -⟩ := RuleDeclarations.closure_law _ _ hsealed {} RuleSet.bridgeRecords []
    RuleSet.indexed_bridge "app.api" "lib.impl" RuleSet.uses_bridge
  obtain ⟨hspared, -⟩ := RuleDeclarations.closure_law _ _ hopen {} RuleSet.bridgeRecords []
    RuleSet.indexed_bridge "app.api" "lib.impl" RuleSet.uses_bridge
  exact ⟨⟨hsealed, _, hok, (hclosed _ hok).1 rfl hself hallowance⟩,
    hopen, _, hok', (hspared _ hok').2.2 hexternal hdenial⟩

end PackageAudit
