/-
The verdict on a dependency, said without tables.

A dependency between two packages is looked at by the rules that stand for the using package,
its owners.  Each has an opinion: how specifically its relations, and those that the rules of
the used package declare for their users, allow and deny the dependency.  What follows from
the opinions is said here of names and sets of patterns; that the judges of the evaluation
hold these opinions is proved at the end.
-/
import Mathlib.Order.Lattice.Nat
import PackageAudit.Proofs.Model.Names
import PackageAudit.Rules.Evaluation

namespace PackageAudit

/-- The greatest specificity among some patterns, and 0 if there is none. -/
noncomputable def strongest (patterns : Set PackagePattern) : Nat :=
  sSup (Set.image PackagePattern.specificity patterns)

/-- The patterns that allow a package and stand for it. -/
def Relations.allowing (relations : Relations) (package : String) : Set PackagePattern :=
  {pattern | (pattern ∈ relations.may ∨ pattern ∈ relations.must) ∧ pattern.covers package = true}

/-- The patterns that deny a package and stand for it. -/
def Relations.denying (relations : Relations) (package : String) : Set PackagePattern :=
  {pattern | pattern ∈ relations.mustNot ∧ pattern.covers package = true}

/-- An opinion on a dependency: the rule that holds it and how specific that rule is, and how
specifically the dependency is allowed and denied, each 0 if not at all. -/
structure Opinion where
  rule : PackagePattern
  specificity : Nat
  allowed : Nat
  denied : Nat

namespace Opinion

/-- Whether the dependency is allowed and denied alike. -/
def IsAmbiguous (opinion : Opinion) : Prop :=
  opinion.allowed ≠ 0 ∧ opinion.allowed = opinion.denied

/-- Whether the opinion is for the dependency.  If it is not denied, that may be by default. -/
def Allows (mode : ClosureMode) (opinion : Opinion) : Prop :=
  opinion.denied < opinion.allowed ∨ mode = .allowByDefault ∧ opinion.denied = 0

/-- Whether the opinion is against the dependency.  If it is not allowed, that may be by
default. -/
def Denies (mode : ClosureMode) (opinion : Opinion) : Prop :=
  opinion.allowed < opinion.denied ∨ mode = .denyByDefault ∧ opinion.allowed = 0

/-- The weight of a denial: the specificity of the rule, or 0 for a denial by default. -/
def weight (opinion : Opinion) : Nat :=
  if opinion.denied = 0 then 0 else opinion.specificity

end Opinion

namespace RuleSet

/-- Whether a rule of a rule set stands for a package. -/
def Owns (rules : RuleSet) (rule : Rule) (package : String) : Prop :=
  rule ∈ rules.rules ∧ rule.pattern.covers package = true

/-- Whether one rule, the universal one apart, stands for both packages. -/
def IsSelf (rules : RuleSet) (p q : String) : Prop :=
  ∃ rule, rules.Owns rule p ∧ rule.pattern ≠ .every ∧ rule.pattern.covers q = true

/-- The patterns of users that the rules of the used package allow, and that stand for the user. -/
def usersAllowed (rules : RuleSet) (p q : String) : Set PackagePattern :=
  {pattern | ∃ rule, rules.Owns rule q ∧ pattern ∈ rule.usedBy.allowing p}

/-- The patterns of users that the rules of the used package deny, and that stand for the user. -/
def usersDenied (rules : RuleSet) (p q : String) : Set PackagePattern :=
  {pattern | ∃ rule, rules.Owns rule q ∧ pattern ∈ rule.usedBy.denying p}

/-- The opinion of an owner of the using package. -/
noncomputable def opinion (rules : RuleSet) (rule : Rule) (p q : String) : Opinion where
  rule := rule.pattern
  specificity := rule.pattern.specificity
  allowed := max (strongest (rule.uses.allowing q)) (strongest (rules.usersAllowed p q))
  denied := max (strongest (rule.uses.denying q)) (strongest (rules.usersDenied p q))

/-- The opinion on a dependency of a package that no rule stands for. -/
noncomputable def opinionOnUnowned (rules : RuleSet) (p q : String) : Opinion where
  rule := .every
  specificity := 0
  allowed := strongest (rules.usersAllowed p q)
  denied := strongest (rules.usersDenied p q)

/-- Whether an opinion is one of those that count for a dependency. -/
def Holds (rules : RuleSet) (p q : String) (opinion : Opinion) : Prop :=
  (∃ rule, rules.Owns rule p ∧ opinion = rules.opinion rule p q)
    ∨ (∀ rule, ¬ rules.Owns rule p) ∧ opinion = rules.opinionOnUnowned p q

/-- Whether a dependency is there and is judged. -/
def Judged (rules : RuleSet) (model : Model) (p q : String) : Prop :=
  model.Uses p q ∧ ¬ rules.IsSelf p q

/-- Whether a dependency can not be decided. -/
def IsAmbiguous (rules : RuleSet) (model : Model) (p q : String) : Prop :=
  rules.Judged model p q ∧ ∃ opinion, rules.Holds p q opinion ∧ opinion.IsAmbiguous

/-- Whether a dependency is there and not allowed to be: an opinion is against it, and no opinion
for it is more specific than the weight of one against it. -/
def IsDisallowed (rules : RuleSet) (model : Model) (p q : String) : Prop :=
  rules.Judged model p q ∧ (∃ opinion, rules.Holds p q opinion ∧ opinion.Denies rules.mode)
    ∧ ∀ o, rules.Holds p q o → o.Allows rules.mode →
      ∀ o', rules.Holds p q o' → o'.Denies rules.mode → o.specificity ≤ o'.weight

/-- Whether a dependency is required by a relation. -/
def IsRequired (rules : RuleSet) (p q : String) : Prop :=
  ∃ rule ∈ rules.rules,
    rule.pattern.covers p = true ∧ (∃ target ∈ rule.uses.must, target.covers q = true)
      ∨ rule.pattern.covers q = true ∧ ∃ source ∈ rule.usedBy.must, source.covers p = true

/-- Whether a dependency between two packages of a model is required and is not there. -/
def IsMissing (rules : RuleSet) (model : Model) (p q : String) : Prop :=
  p ∈ model.packages.toList.map (·.name) ∧ q ∈ model.packages.toList.map (·.name) ∧ p ≠ q
    ∧ rules.IsRequired p q ∧ ¬ model.Uses p q

/-- Whether a violation is to be reported. -/
def IsViolation (rules : RuleSet) (model : Model) (violation : RuleViolation) : Prop :=
  match violation.kind with
  | .disallowed => rules.IsDisallowed model violation.source violation.target
      ∧ model.IsViaOf violation.source violation.target violation.vias
  | .missingMandatory => rules.IsMissing model violation.source violation.target
      ∧ violation.vias = []

/-- What the evaluation of rules on a model must come to.  It fails if a dependency can not be
decided, and then names the first such dependency and a rule that can not decide it; otherwise it
reports exactly the violations, each once and in the order of the names. -/
structure IsVerdict (rules : RuleSet) (model : Model) (result : Except RuleSetError RuleReport) :
    Prop where
  error_iff : (∃ error, result = .error error) ↔ ∃ p q, rules.IsAmbiguous model p q
  error_first : ∀ error, result = .error error → ∃ p q opinion,
    error = .ambiguous opinion.rule p q ∧ rules.Judged model p q ∧ rules.Holds p q opinion
      ∧ opinion.IsAmbiguous
      ∧ ∀ p' q', rules.IsAmbiguous model p' q' → p < p' ∨ p = p' ∧ (q < q' ∨ q = q')
  mem_violations : ∀ report, result = .ok report →
    ∀ violation, violation ∈ report.violations ↔ rules.IsViolation model violation
  violations_sorted : ∀ report, result = .ok report → report.violations.Pairwise fun v w =>
    v.source < w.source ∨ v.source = w.source ∧ v.target < w.target

end RuleSet

/-! ### The greatest specificity -/

theorem PackagePattern.specificity_pos (pattern : PackagePattern) : 0 < pattern.specificity := by
  cases pattern <;> simp [PackagePattern.specificity]

/-- Whether a number is the greatest specificity among some patterns, or 0 without any. -/
def IsStrongest (patterns : Set PackagePattern) (n : Nat) : Prop :=
  (∀ pattern ∈ patterns, pattern.specificity ≤ n)
    ∧ (n = 0 ∨ ∃ pattern ∈ patterns, pattern.specificity = n)

theorem IsStrongest.strongest_eq {patterns : Set PackagePattern} {n : Nat}
    (h : IsStrongest patterns n) : strongest patterns = n := by
  have hbound : ∀ m ∈ Set.image PackagePattern.specificity patterns, m ≤ n := by
    intro m hm
    obtain ⟨pattern, hpattern, rfl⟩ := hm
    exact h.1 pattern hpattern
  refine Nat.le_antisymm (csSup_le' hbound) ?_
  rcases h.2 with rfl | ⟨pattern, hpattern, rfl⟩
  · exact Nat.zero_le _
  · exact le_csSup ⟨_, hbound⟩ ⟨pattern, hpattern, rfl⟩

/-- Every pattern counts for something, so nothing is heard only where no pattern speaks. -/
theorem strongest_eq_zero_iff {patterns : Set PackagePattern} :
    strongest patterns = 0 ↔ patterns = ∅ := by
  refine ⟨?_, ?_⟩
  · intro hzero
    refine Set.eq_empty_of_forall_notMem fun pattern hpattern => ?_
    have hbound : BddAbove (Set.image PackagePattern.specificity patterns) := by
      refine ⟨4, ?_⟩
      intro m hm
      obtain ⟨other, -, rfl⟩ := hm
      cases other <;> simp [PackagePattern.specificity]
    have hle : pattern.specificity ≤ strongest patterns := le_csSup hbound ⟨pattern, hpattern, rfl⟩
    have hpos : 0 < pattern.specificity := pattern.specificity_pos
    omega
  · intro heq
    obtain rfl := heq
    rw [strongest, Set.image_empty, csSup_empty]
    rfl

theorem strongest_ne_zero_iff {patterns : Set PackagePattern} :
    strongest patterns ≠ 0 ↔ patterns.Nonempty := by
  rw [Ne, strongest_eq_zero_iff, Set.nonempty_iff_ne_empty]

theorem max_strongest_ne_zero {first second : Set PackagePattern} :
    max (strongest first) (strongest second) ≠ 0 ↔ first.Nonempty ∨ second.Nonempty := by
  rw [Ne, Nat.max_eq_zero_iff, not_and_or, ← Ne, ← Ne, strongest_ne_zero_iff,
    strongest_ne_zero_iff]

theorem foldl_max_spec (numbers : List Nat) (start : Nat) :
    start ≤ numbers.foldl Nat.max start ∧ (∀ n ∈ numbers, n ≤ numbers.foldl Nat.max start)
      ∧ (numbers.foldl Nat.max start = start ∨ numbers.foldl Nat.max start ∈ numbers) := by
  induction numbers generalizing start with
  | nil => exact ⟨Nat.le_refl _, fun n hn => absurd hn List.not_mem_nil, Or.inl rfl⟩
  | cons number rest ih =>
      obtain ⟨hstart, hall, hmem⟩ := ih (Nat.max start number)
      rw [List.foldl_cons]
      refine ⟨Nat.le_trans (Nat.le_max_left _ _) hstart, ?_, ?_⟩
      · intro n hn
        rcases List.mem_cons.mp hn with rfl | hrest
        · exact Nat.le_trans (Nat.le_max_right _ _) hstart
        · exact hall n hrest
      · rcases hmem with heq | hmem
        · rw [heq]
          rcases Nat.le_total start number with hle | hle
          · exact Or.inr (List.mem_cons.mpr (Or.inl (Nat.max_eq_right hle)))
          · exact Or.inl (Nat.max_eq_left hle)
        · exact Or.inr (List.mem_cons_of_mem _ hmem)

/-- The greatest of several greatest specificities. -/
theorem isStrongest_foldl {α : Type} {items : List α} {value : α → Nat}
    {patterns : α → Set PackagePattern}
    (h : ∀ item ∈ items, IsStrongest (patterns item) (value item)) :
    IsStrongest {pattern | ∃ item ∈ items, pattern ∈ patterns item}
      ((items.map value).foldl Nat.max 0) := by
  obtain ⟨-, hall, hmem⟩ := foldl_max_spec (items.map value) 0
  refine ⟨?_, ?_⟩
  · intro pattern hpattern
    obtain ⟨item, hitem, hpattern⟩ := hpattern
    exact Nat.le_trans ((h item hitem).1 pattern hpattern) (hall _ (List.mem_map_of_mem hitem))
  · rcases hmem with hzero | hmem
    · exact Or.inl hzero
    · obtain ⟨item, hitem, hvalue⟩ := List.mem_map.mp hmem
      rw [← hvalue]
      refine (h item hitem).2.imp id ?_
      rintro ⟨pattern, hpattern, hspec⟩
      exact ⟨pattern, ⟨item, hitem, hpattern⟩, hspec⟩

namespace Relations

theorem isStrongest_mostSpecific (patterns : List PackagePattern) (package : String) :
    IsStrongest {pattern | pattern ∈ patterns ∧ pattern.covers package = true}
      (mostSpecific patterns package) := by
  have hsingle : ∀ pattern : PackagePattern, IsStrongest {pattern} pattern.specificity :=
    fun pattern => ⟨fun _ h => h ▸ Nat.le_refl _, Or.inr ⟨pattern, rfl, rfl⟩⟩
  have hfold : IsStrongest {pattern | ∃ item ∈ patterns.filter (·.covers package),
      pattern ∈ ({item} : Set PackagePattern)} (mostSpecific patterns package) :=
    isStrongest_foldl fun pattern _ => hsingle pattern
  simpa [List.mem_filter] using hfold

theorem isStrongest_allowing (relations : Relations) (package : String) :
    IsStrongest (relations.allowing package) (relations.allowed package) := by
  have h := isStrongest_mostSpecific (relations.may ++ relations.must) package
  simp only [List.mem_append] at h
  exact h

theorem isStrongest_denying (relations : Relations) (package : String) :
    IsStrongest (relations.denying package) (relations.denied package) :=
  isStrongest_mostSpecific relations.mustNot package

end Relations

/-! ### The opinions of the judges -/

/-- The opinion of a judge. -/
def Judge.opinion (judge : Judge) : Opinion where
  rule := judge.pattern.getD .every
  specificity := judge.specificity
  allowed := judge.allowed
  denied := judge.denied

namespace Judge

variable {judge : Judge} {mode : ClosureMode}

theorem isAmbiguous_iff : judge.isAmbiguous = true ↔ judge.opinion.IsAmbiguous := by
  simp [isAmbiguous, Opinion.IsAmbiguous, opinion]

theorem allows_iff : judge.allows mode = true ↔ judge.opinion.Allows mode := by
  simp [allows, Opinion.Allows, opinion]

theorem denies_iff : judge.denies mode = true ↔ judge.opinion.Denies mode := by
  simp [denies, Opinion.Denies, opinion]

end Judge

namespace RuleSet

variable {rules : RuleSet} {rule : Rule} {p q : String} {opinion : Opinion}

theorem mem_owners : rule ∈ rules.owners p ↔ rules.Owns rule p := List.mem_filter

theorem isSelfReference_iff : isSelfReference (rules.owners p) q = true ↔ rules.IsSelf p q := by
  have huniversal : ∀ pattern : PackagePattern,
      (!pattern.isUniversal) = true ↔ pattern ≠ .every := by
    intro pattern
    cases pattern <;> simp [PackagePattern.isUniversal]
  simp only [isSelfReference, List.any_eq_true, Bool.and_eq_true, huniversal, mem_owners]
  exact Iff.rfl

theorem strongest_usersAllowed (rules : RuleSet) (p q : String) :
    strongest (rules.usersAllowed p q) = rules.reverseAllowed p q := by
  have h := isStrongest_foldl fun (rule : Rule) (_ : rule ∈ rules.owners q) =>
    rule.usedBy.isStrongest_allowing p
  simp only [mem_owners] at h
  exact h.strongest_eq

theorem strongest_usersDenied (rules : RuleSet) (p q : String) :
    strongest (rules.usersDenied p q) = rules.reverseDenied p q := by
  have h := isStrongest_foldl fun (rule : Rule) (_ : rule ∈ rules.owners q) =>
    rule.usedBy.isStrongest_denying p
  simp only [mem_owners] at h
  exact h.strongest_eq

/-- The opinion of an owner, by the numbers that the evaluation works with. -/
theorem opinion_eq (rules : RuleSet) (rule : Rule) (p q : String) :
    rules.opinion rule p q = Judge.opinion ⟨some rule.pattern,
      Nat.max (rule.uses.allowed q) (rules.reverseAllowed p q),
      Nat.max (rule.uses.denied q) (rules.reverseDenied p q)⟩ := by
  rw [RuleSet.opinion, (rule.uses.isStrongest_allowing q).strongest_eq,
    (rule.uses.isStrongest_denying q).strongest_eq, strongest_usersAllowed, strongest_usersDenied]
  rfl

theorem opinionOnUnowned_eq (rules : RuleSet) (p q : String) :
    rules.opinionOnUnowned p q
      = Judge.opinion ⟨none, rules.reverseAllowed p q, rules.reverseDenied p q⟩ := by
  rw [opinionOnUnowned, strongest_usersAllowed, strongest_usersDenied]
  rfl

/-- The opinions that count are those of the judges. -/
theorem holds_iff : rules.Holds p q opinion ↔
    ∃ judge ∈ rules.judges (rules.owners p) p q, judge.opinion = opinion := by
  unfold Holds
  simp only [← mem_owners, opinion_eq, opinionOnUnowned_eq, judges]
  cases rules.owners p with
  | nil => simp [eq_comm]
  | cons first rest =>
      have howned : ¬ ∀ rule, rule ∉ first :: rest := fun h => h first List.mem_cons_self
      simp only [howned, false_and, or_false, List.mem_map]
      refine ⟨?_, ?_⟩
      · rintro ⟨rule, hrule, rfl⟩
        exact ⟨_, ⟨rule, hrule, rfl⟩, rfl⟩
      · rintro ⟨_, ⟨rule, hrule, rfl⟩, rfl⟩
        exact ⟨rule, hrule, rfl⟩

end RuleSet

end PackageAudit
