/-
Which rule prevails.

Of the opinions on a dependency the evaluation keeps two numbers: the specificity of the most
specific rule that is for it, and the weight of the weakest one against it.  A rule that says
nothing of a dependency is for it where that is the default, and counts with its full
specificity.  So a denial can fall to a rule that is silent, and the most specific rule can
lose to one that is less specific.  The theorems below say exactly when.
-/
import PackageAudit.Proofs.Rules.Evaluation

namespace PackageAudit

/-- Whether a report says of a dependency that it is not allowed. -/
def RuleReport.Disallows (report : RuleReport) (p q : String) : Prop :=
  ∃ violation ∈ report.violations,
    violation.kind = .disallowed ∧ violation.source = p ∧ violation.target = q

/-- Whether an opinion rests on a relation, and not on the default alone. -/
def Opinion.IsExplicit (opinion : Opinion) : Prop := opinion.allowed ≠ 0 ∨ opinion.denied ≠ 0

namespace RuleSet

variable {rules : RuleSet} {model : Model} {rule : Rule} {report : RuleReport} {p q : String}

theorem disallows_iff (h : model.WellFormed) (hidx : model.Indexed)
    (hok : rules.evaluate model = .ok report) :
    report.Disallows p q ↔ rules.IsDisallowed model p q := by
  have hverdict := (rules.isVerdict_evaluate h hidx).mem_violations report hok
  refine ⟨?_, ?_⟩
  · rintro ⟨⟨_, _, _, vias⟩, hmem, rfl, rfl, rfl⟩
    exact ((hverdict _).mp hmem).1
  · intro hdisallowed
    obtain ⟨source, target, hp, hq, -⟩ := (Model.uses_iff h hidx).mp hdisallowed.1.1
    refine ⟨⟨p, q, .disallowed, model.viaNames source target⟩, (hverdict _).mpr ?_, rfl, rfl, rfl⟩
    exact ⟨hdisallowed, source, target, hp, hq, rfl⟩

/-! ### The opinions of owners -/

/-- Whether a relation of an owner, or one of the used package, allows a dependency. -/
def SpeaksFor (rules : RuleSet) (rule : Rule) (p q : String) : Prop :=
  (rule.uses.allowing q).Nonempty ∨ (rules.usersAllowed p q).Nonempty

/-- Whether a relation of an owner, or one of the used package, denies a dependency. -/
def SpeaksAgainst (rules : RuleSet) (rule : Rule) (p q : String) : Prop :=
  (rule.uses.denying q).Nonempty ∨ (rules.usersDenied p q).Nonempty

theorem holds_iff_of_owned (howned : rules.Owns rule p) {opinion : Opinion} :
    rules.Holds p q opinion ↔ ∃ owner, rules.Owns owner p ∧ opinion = rules.opinion owner p q := by
  refine ⟨?_, ?_⟩
  · intro hor
    rcases hor with hopinion | ⟨hnone, -⟩
    · exact hopinion
    · exact absurd howned (hnone rule)
  · exact Or.inl

/-- The verdict on a dependency of a package that a rule stands for, by its owners. -/
theorem isDisallowed_iff_of_owned (howned : rules.Owns rule p) (hjudged : rules.Judged model p q) :
    rules.IsDisallowed model p q ↔
      (∃ owner, rules.Owns owner p ∧ (rules.opinion owner p q).Denies rules.mode)
        ∧ ∀ pro con, rules.Owns pro p → rules.Owns con p →
          (rules.opinion pro p q).Allows rules.mode → (rules.opinion con p q).Denies rules.mode →
          pro.pattern.specificity ≤ (rules.opinion con p q).weight := by
  have hholds : ∀ opinion, rules.Holds p q opinion ↔ _ := fun _ => holds_iff_of_owned howned
  unfold IsDisallowed
  simp only [hjudged, true_and, hholds]
  refine ⟨?_, ?_⟩
  · rintro ⟨⟨_, ⟨owner, howner, rfl⟩, hdenies⟩, hall⟩
    refine ⟨⟨owner, howner, hdenies⟩, ?_⟩
    intro pro con hpro hcon hallows hdenies'
    exact hall _ ⟨pro, hpro, rfl⟩ hallows _ ⟨con, hcon, rfl⟩ hdenies'
  · rintro ⟨⟨owner, howner, hdenies⟩, hall⟩
    refine ⟨⟨_, ⟨owner, howner, rfl⟩, hdenies⟩, ?_⟩
    intro o ho hallows o' ho' hdenies'
    obtain ⟨pro, hpro, rfl⟩ := ho
    obtain ⟨con, hcon, rfl⟩ := ho'
    exact hall pro con hpro hcon hallows hdenies'

theorem speaksFor_iff : rules.SpeaksFor rule p q ↔ (rules.opinion rule p q).allowed ≠ 0 :=
  max_strongest_ne_zero.symm

theorem speaksAgainst_iff :
    rules.SpeaksAgainst rule p q ↔ (rules.opinion rule p q).denied ≠ 0 :=
  max_strongest_ne_zero.symm

theorem weight_of_speaksAgainst (h : rules.SpeaksAgainst rule p q) :
    (rules.opinion rule p q).weight = rule.pattern.specificity :=
  if_neg (speaksAgainst_iff.mp h)

/-! ### Denials and silent rules -/

/-- **A denial that no relation answers stands unless a silent rule is more specific.**  Where
dependencies are denied by default it always stands.  Where they are allowed by default, an owner
without a relation for the dependency is for it all the same, and takes away the denials of all
less specific owners. -/
theorem denial_stands_iff (rules : RuleSet) (filter : PackageFilter) (records : List ClassRecord)
    (sources : List SourceRecord) (hidx : (Model.assemble filter records sources).Indexed)
    (report : RuleReport)
    (hok : rules.evaluate (Model.assemble filter records sources) = .ok report) (p q : String)
    (huses : (Model.assemble filter records sources).Uses p q) (hself : ¬ rules.IsSelf p q)
    (hdenied : ∃ rule, rules.Owns rule p ∧ rules.SpeaksAgainst rule p q)
    (hallowed : ∀ rule, rules.Owns rule p → ¬ rules.SpeaksFor rule p q) :
    report.Disallows p q ↔ rules.mode = .denyByDefault
      ∨ ∀ silent denier, rules.Owns silent p → ¬ rules.SpeaksAgainst silent p q →
        rules.Owns denier p → rules.SpeaksAgainst denier p q →
        silent.pattern.specificity ≤ denier.pattern.specificity := by
  obtain ⟨rule, howned, hagainst⟩ := hdenied
  rw [disallows_iff (Model.assemble_wellFormed filter records sources) hidx hok,
    isDisallowed_iff_of_owned howned ⟨huses, hself⟩]
  have hzero : ∀ owner, rules.Owns owner p → (rules.opinion owner p q).allowed = 0 :=
    fun owner howner => not_not.mp fun hc => hallowed owner howner (speaksFor_iff.mpr hc)
  have hdenies : ∀ owner, rules.Owns owner p → rules.SpeaksAgainst owner p q →
      (rules.opinion owner p q).Denies rules.mode := by
    intro owner howner hspeaks
    refine Or.inl ?_
    rw [hzero owner howner]
    exact Nat.pos_of_ne_zero (speaksAgainst_iff.mp hspeaks)
  refine ⟨?_, ?_⟩
  · rintro ⟨-, hall⟩
    cases hmode : rules.mode with
    | denyByDefault => exact Or.inl rfl
    | allowByDefault =>
        refine Or.inr ?_
        intro silent denier hsilent hquiet hdenier hspeaks
        have hallows : (rules.opinion silent p q).Allows rules.mode :=
          Or.inr ⟨hmode, not_not.mp fun hc => hquiet (speaksAgainst_iff.mpr hc)⟩
        have hle := hall silent denier hsilent hdenier hallows (hdenies denier hdenier hspeaks)
        rwa [weight_of_speaksAgainst hspeaks] at hle
  · intro hcond
    refine ⟨⟨rule, howned, hdenies rule howned hagainst⟩, ?_⟩
    intro pro con hpro hcon hallows hcondenies
    -- Whoever allows is silent, since no relation does.
    rcases hallows with hlt | ⟨hmode, hquiet⟩
    · rw [hzero pro hpro] at hlt
      exact absurd hlt (Nat.not_lt_zero _)
    · rcases hcondenies with hlt | ⟨hdeny, -⟩
      · have hspeaks : rules.SpeaksAgainst con p q :=
          speaksAgainst_iff.mpr (Nat.ne_of_gt (Nat.lt_of_le_of_lt (Nat.zero_le _) hlt))
        rw [weight_of_speaksAgainst hspeaks]
        rcases hcond with hdeny | hall
        · exact absurd (hmode.symm.trans hdeny) (by decide)
        · exact hall pro con hpro (fun hc => speaksAgainst_iff.mp hc hquiet) hcon hspeaks
      · exact absurd (hmode.symm.trans hdeny) (by decide)

theorem uses_bridge : (Model.assemble {} bridgeRecords []).Uses "app.api" "lib.impl" :=
  (Model.uses_iff (Model.assemble_wellFormed _ _ _) indexed_bridge).mpr
    ⟨⟨0⟩, ⟨1⟩, by decide +kernel, by decide +kernel, by decide +kernel⟩

/-- The rule for `app.api` says nothing; the packages of `app` must not use those of `lib`. -/
def silentRules : RuleSet where
  mode := .allowByDefault
  rules := [{ pattern := .exact "app.api" },
    { pattern := .below "app", uses := { mustNot := [.below "lib"] } }]

/-- How the rules are declared. -/
def silentDeclarations : RuleDeclarations where
  mode := .allowByDefault
  rules := ["app.api"]
  relations := [⟨"app.*", ⟨.uses, .mustNot⟩, ["lib.*"]⟩]

/-- A denial that no relation answers is lost to a silent rule. -/
theorem silentRules_lose_denial :
    silentDeclarations.seal = .ok silentRules
      ∧ (∃ rule, silentRules.Owns rule "app.api"
        ∧ silentRules.SpeaksAgainst rule "app.api" "lib.impl")
      ∧ (∀ rule, silentRules.Owns rule "app.api" →
        ¬ silentRules.SpeaksFor rule "app.api" "lib.impl")
      ∧ silentRules.evaluate (Model.assemble {} bridgeRecords []) = .ok ⟨[], [], ["lib.impl"]⟩
      ∧ ¬ RuleReport.Disallows ⟨[], [], ["lib.impl"]⟩ "app.api" "lib.impl" := by
  have hok : silentRules.evaluate (Model.assemble {} bridgeRecords [])
      = .ok ⟨[], [], ["lib.impl"]⟩ := by
    decide +kernel
  have hself : ¬ silentRules.IsSelf "app.api" "lib.impl" :=
    fun hc => absurd (isSelfReference_iff.mpr hc) (by decide +kernel)
  have howns : ∀ rule ∈ silentRules.rules, silentRules.Owns rule "app.api" := by
    have hcovers : ∀ rule ∈ silentRules.rules, rule.pattern.covers "app.api" = true := by
      decide +kernel
    exact fun rule hrule => ⟨hrule, hcovers rule hrule⟩
  have hagainst : silentRules.SpeaksAgainst
      { pattern := .below "app", uses := { mustNot := [.below "lib"] } } "app.api" "lib.impl" := by
    rw [speaksAgainst_iff, opinion_eq]
    decide +kernel
  have hquiet : ¬ silentRules.SpeaksAgainst { pattern := .exact "app.api" } "app.api"
      "lib.impl" := by
    rw [speaksAgainst_iff, opinion_eq]
    decide +kernel
  have hfor : ∀ rule, silentRules.Owns rule "app.api" →
      ¬ silentRules.SpeaksFor rule "app.api" "lib.impl" := by
    have hzero : ∀ rule ∈ silentRules.rules, Nat.max (rule.uses.allowed "lib.impl")
        (silentRules.reverseAllowed "app.api" "lib.impl") = 0 := by
      decide +kernel
    intro rule hrule hc
    rw [speaksFor_iff, opinion_eq] at hc
    exact hc (hzero rule hrule.1)
  have hdenied : ∃ rule, silentRules.Owns rule "app.api"
      ∧ silentRules.SpeaksAgainst rule "app.api" "lib.impl" :=
    ⟨_, howns _ (by decide +kernel), hagainst⟩
  refine ⟨by decide +kernel, hdenied, hfor, hok, ?_⟩
  rw [denial_stands_iff silentRules {} bridgeRecords [] indexed_bridge _ hok "app.api" "lib.impl"
    uses_bridge hself hdenied hfor]
  intro hor
  rcases hor with hmode | hall
  · exact absurd hmode (by decide)
  · have hle := hall { pattern := .exact "app.api" } _ (howns _ (by decide +kernel)) hquiet
      (howns _ (by decide +kernel)) hagainst
    exact absurd hle (by decide)

/-! ### The most specific rule -/

/-- Against an owner that allows a dependency explicitly, and is more specific than all others that
have an explicit opinion, no denial stands. -/
theorem not_isDisallowed_of_allowed {decider : Rule} (howns : rules.Owns decider p)
    (hjudged : rules.Judged model p q)
    (hmost : ∀ other, rules.Owns other p → (rules.opinion other p q).IsExplicit → other ≠ decider →
      other.pattern.specificity < decider.pattern.specificity)
    (hallowed : (rules.opinion decider p q).denied < (rules.opinion decider p q).allowed) :
    ¬ rules.IsDisallowed model p q := by
  rw [isDisallowed_iff_of_owned howns hjudged]
  rintro ⟨⟨owner, howner, hdenies⟩, hall⟩
  have hle := hall decider owner howns howner (Or.inl hallowed) hdenies
  by_cases hsilent : (rules.opinion owner p q).denied = 0
  · -- A denial by default has no weight.
    have hpos := decider.pattern.specificity_pos
    rw [Opinion.weight, if_pos hsilent] at hle
    omega
  · rw [weight_of_speaksAgainst (speaksAgainst_iff.mpr hsilent)] at hle
    have hne : owner ≠ decider := by
      intro heq
      obtain rfl := heq
      rcases hdenies with hlt | ⟨-, hzero⟩
      · exact Nat.lt_asymm hallowed hlt
      · rw [hzero] at hallowed
        exact Nat.not_lt_zero _ hallowed
    have hlt := hmost owner howner (Or.inr hsilent) hne
    omega

/-- **When the most specific rule decides.**  If it allows a dependency, the dependency is never
reported.  If it denies it, the dependency is reported unless some owner is for it, explicitly or
by default, that is more specific than the weight of some denial: the denial that is set against
the allowances is the weakest one, not that of the most specific rule. -/
theorem most_specific_decides_iff (rules : RuleSet) (filter : PackageFilter)
    (records : List ClassRecord) (sources : List SourceRecord)
    (hidx : (Model.assemble filter records sources).Indexed) (report : RuleReport)
    (hok : rules.evaluate (Model.assemble filter records sources) = .ok report) (p q : String)
    (huses : (Model.assemble filter records sources).Uses p q) (hself : ¬ rules.IsSelf p q)
    (decider : Rule) (howns : rules.Owns decider p)
    (hexplicit : (rules.opinion decider p q).IsExplicit)
    (hmost : ∀ other, rules.Owns other p → (rules.opinion other p q).IsExplicit → other ≠ decider →
      other.pattern.specificity < decider.pattern.specificity) :
    report.Disallows p q ↔
      (rules.opinion decider p q).allowed < (rules.opinion decider p q).denied
        ∧ ∀ pro con, rules.Owns pro p → rules.Owns con p →
          (rules.opinion pro p q).Allows rules.mode → (rules.opinion con p q).Denies rules.mode →
          pro.pattern.specificity ≤ (rules.opinion con p q).weight := by
  have hwf := Model.assemble_wellFormed filter records sources
  have hjudged : rules.Judged (Model.assemble filter records sources) p q := ⟨huses, hself⟩
  rw [disallows_iff hwf hidx hok]
  refine ⟨?_, ?_⟩
  · intro hdisallowed
    refine ⟨?_, ((isDisallowed_iff_of_owned howns hjudged).mp hdisallowed).2⟩
    rcases Nat.lt_trichotomy (rules.opinion decider p q).allowed
      (rules.opinion decider p q).denied with hlt | heq | hgt
    · exact hlt
    · -- An owner that can not decide would have stopped the evaluation.
      have hnonzero : (rules.opinion decider p q).allowed ≠ 0 := by
        rcases hexplicit with hne | hne
        · exact hne
        · rwa [heq]
      have hholds : rules.Holds p q (rules.opinion decider p q) := Or.inl ⟨decider, howns, rfl⟩
      obtain ⟨error, herror⟩ := (rules.isVerdict_evaluate hwf hidx).error_iff.mpr
        ⟨p, q, hjudged, _, hholds, hnonzero, heq⟩
      rw [hok] at herror
      exact nomatch herror
    · exact absurd hdisallowed (not_isDisallowed_of_allowed howns hjudged hmost hgt)
  · rintro ⟨hlt, hall⟩
    exact (isDisallowed_iff_of_owned howns hjudged).mpr ⟨⟨decider, howns, Or.inl hlt⟩, hall⟩

/-- The packages of a pattern must not use `lib.impl`. -/
def denyingRule (pattern : PackagePattern) : Rule :=
  { pattern, uses := { mustNot := [.exact "lib.impl"] } }

/-- The packages of a pattern may use `lib.impl`. -/
def allowingRule (pattern : PackagePattern) : Rule :=
  { pattern, uses := { may := [.exact "lib.impl"] } }

/-- No package must use `lib.impl`, but those of `app` may, and of these `app.api` must not. -/
def layeredRules : RuleSet where
  mode := .allowByDefault
  rules := [denyingRule .every, allowingRule (.below "app"), denyingRule (.exact "app.api")]

/-- How the rules are declared. -/
def layeredDeclarations : RuleDeclarations where
  mode := .allowByDefault
  relations := [⟨"*", ⟨.uses, .mustNot⟩, ["lib.impl"]⟩, ⟨"app.*", ⟨.uses, .may⟩, ["lib.impl"]⟩,
    ⟨"app.api", ⟨.uses, .mustNot⟩, ["lib.impl"]⟩]

/-- The denial of the most specific rule is lost to an allowance that overrides a weaker denial. -/
theorem layeredRules_lose_denial :
    layeredDeclarations.seal = .ok layeredRules
      ∧ layeredRules.evaluate (Model.assemble {} bridgeRecords []) = .ok ⟨[], [], []⟩
      ∧ (∀ other, layeredRules.Owns other "app.api" → other ≠ denyingRule (.exact "app.api") →
        other.pattern.specificity < (denyingRule (.exact "app.api")).pattern.specificity)
      ∧ (layeredRules.opinion (denyingRule (.exact "app.api")) "app.api" "lib.impl").allowed
        < (layeredRules.opinion (denyingRule (.exact "app.api")) "app.api" "lib.impl").denied
      ∧ ¬ RuleReport.Disallows ⟨[], [], []⟩ "app.api" "lib.impl" := by
  have hok : layeredRules.evaluate (Model.assemble {} bridgeRecords []) = .ok ⟨[], [], []⟩ := by
    decide +kernel
  have hself : ¬ layeredRules.IsSelf "app.api" "lib.impl" :=
    fun hc => absurd (isSelfReference_iff.mpr hc) (by decide +kernel)
  have howns : ∀ rule ∈ layeredRules.rules, layeredRules.Owns rule "app.api" := by
    have hcovers : ∀ rule ∈ layeredRules.rules, rule.pattern.covers "app.api" = true := by
      decide +kernel
    exact fun rule hrule => ⟨hrule, hcovers rule hrule⟩
  have hdenied : ∀ rule ∈ [denyingRule .every, denyingRule (.exact "app.api")],
      (layeredRules.opinion rule "app.api" "lib.impl").allowed
        < (layeredRules.opinion rule "app.api" "lib.impl").denied := by
    simp only [opinion_eq]
    decide +kernel
  have hallowed : (layeredRules.opinion (allowingRule (.below "app")) "app.api" "lib.impl").denied
      < (layeredRules.opinion (allowingRule (.below "app")) "app.api" "lib.impl").allowed := by
    rw [opinion_eq]
    decide +kernel
  have hmost : ∀ other ∈ layeredRules.rules, other ≠ denyingRule (.exact "app.api") →
      other.pattern.specificity < (denyingRule (.exact "app.api")).pattern.specificity := by
    decide +kernel
  have hdecider := hdenied (denyingRule (.exact "app.api")) (by decide +kernel)
  have hevery := hdenied (denyingRule .every) (by decide +kernel)
  refine ⟨by decide +kernel, hok, fun other hother => hmost other hother.1, hdecider, ?_⟩
  rw [most_specific_decides_iff layeredRules {} bridgeRecords [] indexed_bridge _ hok "app.api"
    "lib.impl" uses_bridge hself (denyingRule (.exact "app.api")) (howns _ (by decide +kernel))
    (Or.inr (Nat.ne_of_gt (Nat.zero_lt_of_lt hdecider)))
    (fun other hother _ => hmost other hother.1)]
  rintro ⟨-, hall⟩
  -- The allowance for `app` is more specific than the denial for everyone.
  have hle := hall (allowingRule (.below "app")) (denyingRule .every)
    (howns _ (by decide +kernel)) (howns _ (by decide +kernel)) (Or.inl hallowed) (Or.inl hevery)
  rw [weight_of_speaksAgainst (speaksAgainst_iff.mpr (Nat.ne_of_gt (Nat.zero_lt_of_lt hevery)))]
    at hle
  exact absurd hle (by decide)

end RuleSet

end PackageAudit
