/-
Relations said from either side.

That `a` may use `b` can be declared for `a`, or for `b` as what `a` may do.  The two are read by
different parts of the evaluation, and they make different rules, so that a package can have a
rule in one case and none in the other.  Without wildcards this makes no difference: there is at
most one opinion on a dependency, and it rests on what the relations say of it from both sides.
-/
import Mathlib.Data.List.Sort
import PackageAudit.Proofs.Model.Edges
import PackageAudit.Proofs.Rules.Closure

namespace PackageAudit

/-! ### Turning relations round -/

/-- The other direction. -/
def Direction.opposite : Direction → Direction
  | .uses => .usedBy
  | .usedBy => .uses

/-- The kind that says the same from the other side. -/
def RelationKind.opposite (kind : RelationKind) : RelationKind :=
  ⟨kind.direction.opposite, kind.modality⟩

/-- A relation said from the other side: one relation for each target. -/
def Relation.flipped (relation : Relation) : List Relation :=
  relation.targets.map fun target => ⟨target, relation.kind.opposite, [relation.pattern]⟩

/-- Relations of which some are replaced by what says the same from the other side.  A relation
without targets has no other side. -/
inductive Flips : List Relation → List Relation → Prop
  | nil : Flips [] []
  | keep (relation : Relation) {rest rest' : List Relation} (h : Flips rest rest') :
      Flips (relation :: rest) (relation :: rest')
  | flip (relation : Relation) (hne : relation.targets ≠ []) {rest rest' : List Relation}
      (h : Flips rest rest') : Flips (relation :: rest) (relation.flipped ++ rest')

/-- What a relation says of a dependency, from whichever side. -/
def Relation.States (relation : Relation) (modality : Modality) (source target : PackagePattern) :
    Prop :=
  ∃ direction, relation.Declares ⟨source, target, ⟨direction, modality⟩⟩

theorem Sealing.edgeOf_opposite (pattern : PackagePattern) (kind : RelationKind)
    (target : PackagePattern) : edgeOf target kind.opposite pattern
      = { edgeOf pattern kind target with kind := kind.opposite } := by
  obtain ⟨direction, modality⟩ := kind
  cases direction <;> rfl

theorem Sealing.exists_direction_iff {source target pattern other : PackagePattern}
    {modality : Modality} {kind : RelationKind} :
    (∃ direction, (⟨source, target, ⟨direction, modality⟩⟩ : DeclaredEdge)
        = edgeOf pattern kind other) ↔
      source = (edgeOf pattern kind other).source ∧ target = (edgeOf pattern kind other).target
        ∧ modality = kind.modality := by
  obtain ⟨direction, m⟩ := kind
  cases direction <;> simp [edgeOf, RelationKind.isReverse]

theorem Relation.states_iff {relation : Relation} {modality : Modality}
    {source target : PackagePattern} : relation.States modality source target ↔
      modality = relation.kind.modality ∧
        ∃ pattern, PackagePattern.ofText? relation.pattern = some pattern ∧
          ∃ text ∈ relation.targets, ∃ other, PackagePattern.ofText? text = some other ∧
            source = (Sealing.edgeOf pattern relation.kind other).source ∧
            target = (Sealing.edgeOf pattern relation.kind other).target := by
  refine ⟨?_, ?_⟩
  · rintro ⟨direction, pattern, hpattern, text, htext, other, hother, hedge⟩
    obtain ⟨hsource, htarget, hmodality⟩ := Sealing.exists_direction_iff.mp ⟨direction, hedge⟩
    exact ⟨hmodality, pattern, hpattern, text, htext, other, hother, hsource, htarget⟩
  · rintro ⟨hmodality, pattern, hpattern, text, htext, other, hother, hsource, htarget⟩
    obtain ⟨direction, hedge⟩ := Sealing.exists_direction_iff.mpr ⟨hsource, htarget, hmodality⟩
    exact ⟨direction, pattern, hpattern, text, htext, other, hother, hedge⟩

/-- From the other side a relation says the same. -/
theorem Relation.exists_mem_flipped {relation : Relation} {modality : Modality}
    {source target : PackagePattern} :
    (∃ other ∈ relation.flipped, other.States modality source target) ↔
      relation.States modality source target := by
  simp only [states_iff]
  refine ⟨?_, ?_⟩
  · rintro ⟨_, hmem, hmodality, other, hother, text', htext', pattern, hpattern, hedge⟩
    obtain ⟨text, htext, rfl⟩ := List.mem_map.mp hmem
    obtain rfl := List.mem_singleton.mp htext'
    rw [Sealing.edgeOf_opposite] at hedge
    exact ⟨hmodality, pattern, hpattern, text, htext, other, hother, hedge⟩
  · rintro ⟨hmodality, pattern, hpattern, text, htext, other, hother, hedge⟩
    refine ⟨_, List.mem_map_of_mem htext, hmodality, other, hother, relation.pattern,
      List.mem_singleton.mpr rfl, pattern, hpattern, ?_⟩
    rw [Sealing.edgeOf_opposite]
    exact hedge

namespace Flips

variable {relations relations' : List Relation}

/-- All relations together say the same. -/
theorem exists_states (h : Flips relations relations') {modality : Modality}
    {source target : PackagePattern} :
    (∃ relation ∈ relations', relation.States modality source target) ↔
      ∃ relation ∈ relations, relation.States modality source target := by
  induction h with
  | nil => rfl
  | keep relation h ih =>
      simp only [List.exists_mem_cons_iff, ih]
  | flip relation hne h ih =>
      simp only [List.mem_append, or_and_right, exists_or, List.exists_mem_cons_iff, ih,
        Relation.exists_mem_flipped]

/-- The texts are the same, though not as often. -/
theorem forall_texts (h : Flips relations relations') {P : String → Prop} :
    (∀ text ∈ relations'.flatMap fun relation => relation.pattern :: relation.targets, P text) ↔
      ∀ text ∈ relations.flatMap fun relation => relation.pattern :: relation.targets, P text := by
  induction h with
  | nil => rfl
  | keep relation h ih =>
      rw [List.flatMap_cons, List.flatMap_cons, List.forall_mem_append, List.forall_mem_append, ih]
  | flip relation hne h ih =>
      have hflipped :
          (∀ text ∈ relation.flipped.flatMap fun other => other.pattern :: other.targets, P text)
            ↔ ∀ text ∈ relation.pattern :: relation.targets, P text := by
        simp only [Relation.flipped, List.flatMap_map, List.forall_mem_flatMap,
          List.forall_mem_cons, List.not_mem_nil, false_implies, implies_true, and_true]
        refine ⟨?_, ?_⟩
        · intro hall
          obtain ⟨text, htext⟩ := List.exists_mem_of_ne_nil _ hne
          exact ⟨(hall text htext).2, fun text htext => (hall text htext).1⟩
        · intro hall text htext
          exact ⟨hall.2 text htext, hall.1⟩
      rw [List.flatMap_append, List.flatMap_cons, List.forall_mem_append, List.forall_mem_append,
        ih, hflipped]

end Flips

/-! ### Rules that can not disagree -/

/-- The order of violations, by the names of the packages. -/
def RuleViolation.Precedes (v w : RuleViolation) : Prop :=
  v.source < w.source ∨ v.source = w.source ∧ v.target < w.target

theorem RuleViolation.Precedes.asymm {v w : RuleViolation} (h : v.Precedes w) :
    ¬w.Precedes v := by
  intro h'
  rcases h with hlt | ⟨heq, hlt⟩
  · rcases h' with hgt | ⟨heq, -⟩
    · exact String.lt_asymm hlt hgt
    · exact String.lt_irrefl _ (heq ▸ hlt)
  · rcases h' with hgt | ⟨-, hgt⟩
    · exact String.lt_irrefl _ (heq ▸ hgt)
    · exact String.lt_asymm hlt hgt

namespace RuleSet

variable {rules : RuleSet} {model : Model} {p q : String} {opinion : Opinion}

/-- Whether a relation of a rule says something of a dependency, from whichever side. -/
def Relates (rules : RuleSet) (modality : Modality) (p q : String) : Prop :=
  (∃ rule, rules.Owns rule p ∧ ∃ target ∈ rule.uses.get modality, target.covers q = true)
    ∨ ∃ rule, rules.Owns rule q ∧ ∃ source ∈ rule.usedBy.get modality, source.covers p = true

theorem allowance_iff_relates :
    rules.Allowance p q ↔ rules.Relates .may p q ∨ rules.Relates .must p q := by
  refine ⟨?_, ?_⟩
  · intro hor
    rcases hor with ⟨rule, hrule, x, hx | hx, hcovers⟩ | ⟨x, rule, hrule, hx | hx, hcovers⟩
    · exact Or.inl (Or.inl ⟨rule, hrule, x, hx, hcovers⟩)
    · exact Or.inr (Or.inl ⟨rule, hrule, x, hx, hcovers⟩)
    · exact Or.inl (Or.inr ⟨rule, hrule, x, hx, hcovers⟩)
    · exact Or.inr (Or.inr ⟨rule, hrule, x, hx, hcovers⟩)
  · intro hor
    rcases hor with (⟨rule, hrule, x, hx, hcovers⟩ | ⟨rule, hrule, x, hx, hcovers⟩)
      | ⟨rule, hrule, x, hx, hcovers⟩ | ⟨rule, hrule, x, hx, hcovers⟩
    · exact Or.inl ⟨rule, hrule, x, Or.inl hx, hcovers⟩
    · exact Or.inr ⟨x, rule, hrule, Or.inl hx, hcovers⟩
    · exact Or.inl ⟨rule, hrule, x, Or.inr hx, hcovers⟩
    · exact Or.inr ⟨x, rule, hrule, Or.inr hx, hcovers⟩

theorem denial_iff_relates : rules.Denial p q ↔ rules.Relates .mustNot p q := by
  refine or_congr Iff.rfl ⟨?_, ?_⟩
  · rintro ⟨x, rule, hrule, hx⟩
    exact ⟨rule, hrule, x, hx⟩
  · rintro ⟨rule, hrule, x, hx⟩
    exact ⟨x, rule, hrule, hx⟩

theorem isRequired_iff_relates : rules.IsRequired p q ↔ rules.Relates .must p q := by
  refine ⟨?_, ?_⟩
  · rintro ⟨rule, hrule, ⟨hcovers, htarget⟩ | ⟨hcovers, hsource⟩⟩
    · exact Or.inl ⟨rule, ⟨hrule, hcovers⟩, htarget⟩
    · exact Or.inr ⟨rule, ⟨hrule, hcovers⟩, hsource⟩
  · intro hor
    rcases hor with ⟨rule, ⟨hrule, hcovers⟩, htarget⟩ | ⟨rule, ⟨hrule, hcovers⟩, hsource⟩
    · exact ⟨rule, hrule, Or.inl ⟨hcovers, htarget⟩⟩
    · exact ⟨rule, hrule, Or.inr ⟨hcovers, hsource⟩⟩

/-- Whether a package has one rule at most. -/
def HasOneOwner (rules : RuleSet) (p : String) : Prop :=
  ∀ rule other, rules.Owns rule p → rules.Owns other p → rule = other

/-- With one owner at most, all opinions rest on the same patterns. -/
theorem Measures.ne_zero_iff {measure : Opinion → Nat} {own : Rule → Set PackagePattern}
    {users : Set PackagePattern} (h : rules.Measures p q measure own users)
    (hone : rules.HasOneOwner p) (hholds : rules.Holds p q opinion) :
    measure opinion ≠ 0 ↔ (∃ rule, rules.Owns rule p ∧ (own rule).Nonempty) ∨ users.Nonempty := by
  refine ⟨h.nonempty hholds, ?_⟩
  intro hor
  rcases hor with ⟨owner, howner, hown⟩ | husers
  · rcases hholds with ⟨rule, hrule, rfl⟩ | ⟨hnone, -⟩
    · obtain rfl := hone rule owner hrule howner
      rw [h.owned, max_strongest_ne_zero]
      exact Or.inl hown
    · exact absurd howner (hnone owner)
  · exact h.ne_zero_of_users hholds husers

theorem allowed_ne_zero_iff (hone : rules.HasOneOwner p) (hholds : rules.Holds p q opinion) :
    opinion.allowed ≠ 0 ↔ rules.Allowance p q :=
  (rules.measures_allowed p q).ne_zero_iff hone hholds

theorem denied_ne_zero_iff (hone : rules.HasOneOwner p) (hholds : rules.Holds p q opinion) :
    opinion.denied ≠ 0 ↔ rules.Denial p q :=
  (rules.measures_denied p q).ne_zero_iff hone hholds

/-- Where the one opinion can not be both for and against a dependency, it is decided. -/
theorem not_isAmbiguous_of_not_both (hone : rules.HasOneOwner p)
    (hboth : ¬(rules.Allowance p q ∧ rules.Denial p q)) : ¬rules.IsAmbiguous model p q := by
  intro hambiguous
  obtain ⟨-, opinion, hholds, hne, heq⟩ := hambiguous
  refine hboth ⟨(allowed_ne_zero_iff hone hholds).mp hne, (denied_ne_zero_iff hone hholds).mp ?_⟩
  rwa [← heq]

/-- Where the one opinion can not be both for and against a dependency, a relation decides or else
the default. -/
theorem isDisallowed_iff_of_not_both (hone : rules.HasOneOwner p)
    (hjudged : rules.Judged model p q) (hboth : ¬(rules.Allowance p q ∧ rules.Denial p q)) :
    rules.IsDisallowed model p q ↔
      rules.Denial p q ∨ rules.mode = .denyByDefault ∧ ¬rules.Allowance p q := by
  have hallowed : ∀ {opinion}, rules.Holds p q opinion → (opinion.allowed ≠ 0 ↔ _) :=
    fun hholds => allowed_ne_zero_iff hone hholds
  have hdenied : ∀ {opinion}, rules.Holds p q opinion → (opinion.denied ≠ 0 ↔ _) :=
    fun hholds => denied_ne_zero_iff hone hholds
  have hdenies : ∀ {opinion}, rules.Holds p q opinion → (opinion.Denies rules.mode ↔
      rules.Denial p q ∨ rules.mode = .denyByDefault ∧ ¬rules.Allowance p q) := by
    intro opinion hholds
    rw [← hallowed hholds, ← hdenied hholds] at hboth ⊢
    unfold Opinion.Denies
    by_cases hmode : rules.mode = .denyByDefault
    · simp only [hmode, true_and]
      omega
    · simp only [hmode, false_and, or_false]
      omega
  refine ⟨?_, ?_⟩
  · intro hdisallowed
    obtain ⟨-, ⟨opinion, hholds, hcon⟩, -⟩ := hdisallowed
    exact (hdenies hholds).mp hcon
  · intro hcon
    obtain ⟨opinion, hholds⟩ := rules.exists_holds p q
    refine ⟨hjudged, ⟨opinion, hholds, (hdenies hholds).mpr hcon⟩, ?_⟩
    -- All opinions rest on the same relations, so none is for the dependency.
    intro o ho hallows
    rw [← hallowed ho, ← hdenied ho] at hboth hcon
    rcases hallows with hlt | ⟨hallow, hzero⟩
    · omega
    · rcases hcon with hne | ⟨hdeny, -⟩
      · exact absurd hzero hne
      · rw [hallow] at hdeny
        cases hdeny

/-- Rules that leave nothing undecided between two packages. -/
structure IsDecided (rules : RuleSet) : Prop where
  one_owner : ∀ p, rules.HasOneOwner p
  not_self : ∀ p q, p ≠ q → ¬rules.IsSelf p q
  not_both : ∀ p q, ¬(rules.Allowance p q ∧ rules.Denial p q)

namespace IsDecided

variable {a b : RuleSet}

theorem exists_report (h : a.IsDecided) (hlinked : model.Linked) :
    ∃ report, a.evaluate model = .ok report := by
  cases hresult : a.evaluate model with
  | ok report => exact ⟨report, rfl⟩
  | error error =>
      obtain ⟨p, q, hambiguous⟩ := (a.isVerdict_evaluate hlinked.wellFormed
        hlinked.indexed).error_iff.mp ⟨error, hresult⟩
      exact absurd hambiguous (not_isAmbiguous_of_not_both (h.one_owner p) (h.not_both p q))

/-- What is violated depends on the mode and on what is said of each dependency. -/
theorem isViolation (ha : a.IsDecided) (hb : b.IsDecided) (hmode : a.mode = b.mode)
    (hrelates : ∀ modality p q, a.Relates modality p q ↔ b.Relates modality p q)
    (hlinked : model.Linked) {violation : RuleViolation} (hv : a.IsViolation model violation) :
    b.IsViolation model violation := by
  obtain ⟨p, q, kind, vias⟩ := violation
  cases kind with
  | disallowed =>
      obtain ⟨hdisallowed, hvias⟩ := hv
      have huses := hdisallowed.1.1
      have hne : p ≠ q := (hlinked.uses_iff_classes.mp huses).1
      refine ⟨?_, hvias⟩
      rw [isDisallowed_iff_of_not_both (ha.one_owner p) ⟨huses, ha.not_self p q hne⟩
        (ha.not_both p q), denial_iff_relates, allowance_iff_relates] at hdisallowed
      rw [isDisallowed_iff_of_not_both (hb.one_owner p) ⟨huses, hb.not_self p q hne⟩
        (hb.not_both p q), denial_iff_relates, allowance_iff_relates, ← hmode]
      simpa only [hrelates] using hdisallowed
  | missingMandatory =>
      obtain ⟨⟨hp, hq, hne, hrequired, hunused⟩, hvias⟩ := hv
      refine ⟨⟨hp, hq, hne, ?_, hunused⟩, hvias⟩
      rw [isRequired_iff_relates, hrelates] at hrequired
      exact isRequired_iff_relates.mpr hrequired

theorem violations_eq (ha : a.IsDecided) (hb : b.IsDecided) (hmode : a.mode = b.mode)
    (hrelates : ∀ modality p q, a.Relates modality p q ↔ b.Relates modality p q)
    (hlinked : model.Linked) {report report' : RuleReport} (hok : a.evaluate model = .ok report)
    (hok' : b.evaluate model = .ok report') : report.violations = report'.violations := by
  have hverdict := a.isVerdict_evaluate hlinked.wellFormed hlinked.indexed
  have hverdict' := b.isVerdict_evaluate hlinked.wellFormed hlinked.indexed
  have hirrefl : Std.Irrefl RuleViolation.Precedes := ⟨fun _ h => h.asymm h⟩
  have hantisymm : Std.Antisymm RuleViolation.Precedes :=
    ⟨fun _ _ h h' => absurd h' h.asymm⟩
  have hsorted : report.violations.Pairwise RuleViolation.Precedes :=
    hverdict.violations_sorted report hok
  have hsorted' : report'.violations.Pairwise RuleViolation.Precedes :=
    hverdict'.violations_sorted report' hok'
  refine hsorted.eq_of_mem_iff hsorted' ?_
  intro violation
  rw [hverdict.mem_violations report hok, hverdict'.mem_violations report' hok']
  refine ⟨ha.isViolation hb hmode hrelates hlinked, ?_⟩
  exact hb.isViolation ha hmode.symm (fun m p q => (hrelates m p q).symm) hlinked

end IsDecided

end RuleSet

/-! ### Declarations without wildcards -/

theorem Text.mem_of_mem_trim {text : List Char} {c : Char} (h : c ∈ trim text) : c ∈ text := by
  unfold trim at h
  rw [List.mem_reverse] at h
  have hfront := (List.dropWhile_sublist _).mem h
  rw [List.mem_reverse] at hfront
  exact (List.dropWhile_sublist _).mem hfront

/-- A text without asterisk stands for one package. -/
theorem PackagePattern.exists_eq_exact {text : String} {pattern : PackagePattern}
    (hstar : '*' ∉ text.toList) (h : ofText? text = some pattern) :
    ∃ name, pattern = .exact name := by
  have hnot : '*' ∉ Text.trim text.toList := fun hc => hstar (Text.mem_of_mem_trim hc)
  have hspells := parse_eq_ok_iff_spells.mp (ofText?_eq_some_iff.mp h)
  generalize Text.trim text.toList = trimmed at hspells hnot
  cases hspells with
  | exact => exact ⟨_, rfl⟩
  | every | below | starting => simp at hnot

namespace RuleDeclarations

open Sealing

variable {declarations : RuleDeclarations} {p q : String}

/-- What the relations say of a dependency, from whichever side. -/
def States (declarations : RuleDeclarations) (modality : Modality)
    (source target : PackagePattern) : Prop :=
  ∃ relation ∈ declarations.relations, relation.States modality source target

theorem states_iff_declares {modality : Modality} {source target : PackagePattern} :
    declarations.States modality source target ↔
      declarations.Declares ⟨source, target, ⟨.uses, modality⟩⟩
        ∨ declarations.Declares ⟨source, target, ⟨.usedBy, modality⟩⟩ := by
  unfold States Relation.States Declares
  refine ⟨?_, ?_⟩
  · rintro ⟨relation, hrelation, direction, hdeclares⟩
    cases direction with
    | uses => exact Or.inl ⟨relation, hrelation, hdeclares⟩
    | usedBy => exact Or.inr ⟨relation, hrelation, hdeclares⟩
  · intro hor
    rcases hor with ⟨relation, hrelation, hdeclares⟩ | ⟨relation, hrelation, hdeclares⟩
    · exact ⟨relation, hrelation, _, hdeclares⟩
    · exact ⟨relation, hrelation, _, hdeclares⟩

/-- Whether declarations are consistent depends on what the relations say, not from which side. -/
theorem consistent_iff_states : declarations.Consistent ↔
    ∀ source target m m', declarations.States m source target →
      declarations.States m' source target → (m = .mustNot ↔ m' = .mustNot) := by
  refine ⟨?_, ?_⟩
  · intro h source target m m' hstates hstates'
    obtain ⟨relation, hrelation, direction, hdeclares⟩ := hstates
    obtain ⟨relation', hrelation', direction', hdeclares'⟩ := hstates'
    have hsame := h source target _ _ ⟨relation, hrelation, hdeclares⟩
      ⟨relation', hrelation', hdeclares'⟩
    simpa [RelationKind.isDenial] using hsame
  · intro h source target allowed denied hallowed hdenied
    obtain ⟨relation, hrelation, hdeclares⟩ := hallowed
    obtain ⟨relation', hrelation', hdeclares'⟩ := hdenied
    have hsame := h source target allowed.modality denied.modality
      ⟨relation, hrelation, allowed.direction, hdeclares⟩
      ⟨relation', hrelation', denied.direction, hdeclares'⟩
    simpa [RelationKind.isDenial] using hsame

/-- Declarations without wildcards and externals. -/
structure IsPlain (declarations : RuleDeclarations) : Prop where
  externals : declarations.externals = []
  texts : ∀ text ∈ declarations.texts, '*' ∉ text.toList

theorem mem_patterns_of_declares {pattern target : PackagePattern} {kind : RelationKind}
    (h : declarations.Declares (edgeOf pattern kind target)) : pattern ∈ declarations.patterns := by
  obtain ⟨relation, hrelation, pattern', hpattern, text, -, target', -, hedge⟩ := h
  obtain ⟨rfl, -, -⟩ := edgeOf_inj.mp hedge
  refine declarations.mem_patterns.mpr ⟨relation.pattern, ?_, hpattern⟩
  exact List.mem_append_left _ (List.mem_append_right _ (List.mem_map_of_mem hrelation))

namespace IsPlain

theorem exists_eq_exact_of_mem_patterns (h : declarations.IsPlain) {pattern : PackagePattern}
    (hpattern : pattern ∈ declarations.patterns) : ∃ name, pattern = .exact name := by
  obtain ⟨text, htext, hpattern⟩ := declarations.mem_patterns.mp hpattern
  rw [h.externals, List.append_nil] at htext
  refine PackagePattern.exists_eq_exact (h.texts text ?_) hpattern
  rcases List.mem_append.mp htext with hrule | hmap
  · exact List.mem_append_left _ (List.mem_append_left _ hrule)
  · obtain ⟨relation, hrelation, rfl⟩ := List.mem_map.mp hmap
    refine List.mem_append_left _ (List.mem_append_right _ ?_)
    exact List.mem_flatMap.mpr ⟨relation, hrelation, List.mem_cons_self⟩

theorem exists_eq_exact_of_declares (h : declarations.IsPlain) {pattern target : PackagePattern}
    {kind : RelationKind} (hdeclares : declarations.Declares (edgeOf pattern kind target)) :
    ∃ name, target = .exact name := by
  obtain ⟨relation, hrelation, _, -, text, htext, target', htarget, hedge⟩ := hdeclares
  obtain ⟨-, -, rfl⟩ := edgeOf_inj.mp hedge
  refine PackagePattern.exists_eq_exact (h.texts text ?_) htarget
  refine List.mem_append_left _ (List.mem_append_right _ ?_)
  exact List.mem_flatMap.mpr ⟨relation, hrelation, List.mem_cons_of_mem _ htext⟩

theorem owns_iff (h : declarations.IsPlain) {rule : Rule} : declarations.sealedRules.Owns rule p ↔
    PackagePattern.exact p ∈ declarations.patterns
      ∧ rule = declarations.ruleOf (.exact p) := by
  unfold RuleSet.Owns
  rw [mem_sealedRules]
  refine ⟨?_, ?_⟩
  · rintro ⟨⟨pattern, hpattern, rfl⟩, hcovers⟩
    obtain ⟨name, rfl⟩ := h.exists_eq_exact_of_mem_patterns hpattern
    obtain rfl : p = name := by simpa [ruleOf, PackagePattern.covers] using hcovers
    exact ⟨hpattern, rfl⟩
  · rintro ⟨hpattern, rfl⟩
    exact ⟨⟨_, hpattern, rfl⟩, by simp [ruleOf, PackagePattern.covers]⟩

/-- A rule speaks of a package if a relation names both. -/
theorem exists_owner_iff (h : declarations.IsPlain) (kind : RelationKind) :
    (∃ rule, declarations.sealedRules.Owns rule p ∧
      ∃ target ∈ rule.targets kind, target.covers q = true) ↔
      declarations.Declares (edgeOf (.exact p) kind (.exact q)) := by
  refine ⟨?_, ?_⟩
  · rintro ⟨rule, hrule, target, htarget, hcovers⟩
    obtain ⟨-, rfl⟩ := h.owns_iff.mp hrule
    rcases (declarations.mem_targets_ruleOf).mp htarget with hdeclares | ⟨-, hexternal, -⟩
    · obtain ⟨name, rfl⟩ := h.exists_eq_exact_of_declares hdeclares
      obtain rfl : q = name := by simpa [PackagePattern.covers] using hcovers
      exact hdeclares
    · rw [externalPatterns, h.externals] at hexternal
      exact absurd hexternal List.not_mem_nil
  · intro hdeclares
    exact ⟨_, h.owns_iff.mpr ⟨mem_patterns_of_declares hdeclares, rfl⟩, .exact q,
      (declarations.mem_targets_ruleOf).mpr (Or.inl hdeclares), by simp [PackagePattern.covers]⟩

theorem relates_iff (h : declarations.IsPlain) {modality : Modality} :
    declarations.sealedRules.Relates modality p q ↔
      declarations.States modality (.exact p) (.exact q) := by
  rw [states_iff_declares]
  exact or_congr (h.exists_owner_iff ⟨.uses, modality⟩) (h.exists_owner_iff ⟨.usedBy, modality⟩)

theorem isDecided (h : declarations.IsPlain) (hconsistent : declarations.Consistent) :
    declarations.sealedRules.IsDecided where
  one_owner := by
    intro p rule other hrule hother
    exact (h.owns_iff.mp hrule).2.trans (h.owns_iff.mp hother).2.symm
  not_self := by
    intro p q hne hself
    obtain ⟨rule, hrule, -, hcovers⟩ := hself
    obtain ⟨-, rfl⟩ := h.owns_iff.mp hrule
    have heq : q = p := by simpa [ruleOf, PackagePattern.covers] using hcovers
    exact hne heq.symm
  not_both := by
    intro p q hboth
    rw [RuleSet.allowance_iff_relates, RuleSet.denial_iff_relates, h.relates_iff, h.relates_iff,
      h.relates_iff] at hboth
    obtain ⟨hallowed, hdenied⟩ := hboth
    rw [consistent_iff_states] at hconsistent
    rcases hallowed with hmay | hmust
    · cases (hconsistent _ _ _ _ hmay hdenied).mpr rfl
    · cases (hconsistent _ _ _ _ hmust hdenied).mpr rfl

end IsPlain

/-- **It does not matter from which side a relation is declared**, without wildcards and externals:
sealing succeeds for both or for none, and then every evaluation succeeds and finds the same
violations. -/
theorem evaluate_flipped (declarations : RuleDeclarations) (hplain : declarations.IsPlain)
    (relations : List Relation) (hflips : Flips declarations.relations relations) :
    ((∃ rules, declarations.seal = .ok rules) ↔
      ∃ rules, RuleDeclarations.seal { declarations with relations } = .ok rules) ∧
    ∀ rules rules', declarations.seal = .ok rules →
      RuleDeclarations.seal { declarations with relations } = .ok rules' →
      ∀ filter records sources, (Model.assemble filter records sources).ClassesIndexed →
        (Model.assemble filter records sources).Indexed →
        ∃ report report', rules.evaluate (Model.assemble filter records sources) = .ok report ∧
          rules'.evaluate (Model.assemble filter records sources) = .ok report' ∧
          report.violations = report'.violations := by
  have hstates : ∀ modality source target,
      States { declarations with relations } modality source target ↔
        declarations.States modality source target :=
    fun _ _ _ => hflips.exists_states
  have htexts : ∀ P : String → Prop,
      (∀ text ∈ texts { declarations with relations }, P text) ↔
        ∀ text ∈ declarations.texts, P text := by
    intro P
    simp only [texts, List.forall_mem_append, hflips.forall_texts]
  have hconsistent : Consistent { declarations with relations } ↔ declarations.Consistent := by
    simp only [consistent_iff_states, hstates]
  have hplain' : IsPlain { declarations with relations } :=
    ⟨hplain.externals, (htexts _).mpr hplain.texts⟩
  refine ⟨?_, ?_⟩
  · simp only [seal_eq_ok_iff_sealedRules, exists_and_left, exists_eq, and_true, htexts,
      hconsistent]
  · intro rules rules' hsealed hsealed' filter records sources hclasses hpackages
    obtain ⟨-, hcons, rfl⟩ := (seal_eq_ok_iff_sealedRules _).mp hsealed
    obtain ⟨-, hcons', rfl⟩ := (seal_eq_ok_iff_sealedRules _).mp hsealed'
    have hlinked := Model.assemble_linked filter records sources hclasses hpackages
    obtain ⟨report, hok⟩ := (hplain.isDecided hcons).exists_report hlinked
    obtain ⟨report', hok'⟩ := (hplain'.isDecided hcons').exists_report hlinked
    refine ⟨report, report', hok, hok', ?_⟩
    refine (hplain.isDecided hcons).violations_eq (hplain'.isDecided hcons') rfl ?_ hlinked hok hok'
    intro modality p q
    rw [hplain.relates_iff, hplain'.relates_iff, hstates]

/-- What `app.api` must not use, and who may use one of these packages. -/
def wallDeclarations : RuleDeclarations where
  mode := .allowByDefault
  relations := [⟨"app.api", ⟨.uses, .mustNot⟩, ["lib.impl", "lib.core"]⟩,
    ⟨"lib.impl", ⟨.usedBy, .may⟩, ["app.web"]⟩]

/-- The same, said of the packages that must not be used. -/
def wallRelations : List Relation :=
  [⟨"lib.impl", ⟨.usedBy, .mustNot⟩, ["app.api"]⟩, ⟨"lib.core", ⟨.usedBy, .mustNot⟩, ["app.api"]⟩,
    ⟨"lib.impl", ⟨.usedBy, .may⟩, ["app.web"]⟩]

/-- The use is found from either side, though only from one there is a rule for the using
package. -/
theorem wallDeclarations_flipped : ∃ rules rules',
    wallDeclarations.seal = .ok rules ∧
      RuleDeclarations.seal { wallDeclarations with relations := wallRelations } = .ok rules' ∧
      rules.owners "app.api" ≠ [] ∧ rules'.owners "app.api" = [] ∧
      ∃ report report',
        rules.evaluate (Model.assemble {} RuleSet.bridgeRecords []) = .ok report ∧
        rules'.evaluate (Model.assemble {} RuleSet.bridgeRecords []) = .ok report' ∧
        report.violations = [⟨"app.api", "lib.impl", .disallowed, ["app.api.Client"]⟩] ∧
        report'.violations = report.violations := by
  have hplain : wallDeclarations.IsPlain := ⟨rfl, by decide +kernel⟩
  have hflips : Flips wallDeclarations.relations wallRelations :=
    .flip _ (List.cons_ne_nil _ _) (.keep _ .nil)
  have hsealed : wallDeclarations.seal = .ok wallDeclarations.sealedRules := by decide +kernel
  have hsealed' : RuleDeclarations.seal { wallDeclarations with relations := wallRelations }
      = .ok (sealedRules { wallDeclarations with relations := wallRelations }) := by
    decide +kernel
  have hclasses : (Model.assemble {} RuleSet.bridgeRecords []).ClassesIndexed := by
    unfold Model.ClassesIndexed
    decide +kernel
  have hviolations : (wallDeclarations.sealedRules.evaluate
      (Model.assemble {} RuleSet.bridgeRecords [])).map (·.violations)
        = .ok [⟨"app.api", "lib.impl", .disallowed, ["app.api.Client"]⟩] := by
    decide +kernel
  obtain ⟨report, report', hok, hok', heq⟩ :=
    (evaluate_flipped wallDeclarations hplain wallRelations hflips).2 _ _ hsealed hsealed' {}
      RuleSet.bridgeRecords [] hclasses RuleSet.indexed_bridge
  rw [hok] at hviolations
  exact ⟨_, _, hsealed, hsealed', by decide +kernel, by decide +kernel, report, report', hok, hok',
    Except.ok.inj hviolations, heq.symm⟩

end RuleDeclarations

end PackageAudit
