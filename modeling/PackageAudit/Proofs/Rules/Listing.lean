/-
The order of sealed rules.

The rules come out in the order in which their patterns are first declared, and the targets of a
rule in the order in which they are first declared for it.  A run of moves tells both: a move
for a new pattern puts a rule at the end, and a new target goes to the end of its list.
-/
import Mathlib.Data.List.Induction
import PackageAudit.Proofs.Rules.Sealing

namespace PackageAudit

/-! ### Lists without repetitions -/

section EraseDups

variable {α β : Type} [DecidableEq α]

theorem eraseDups_concat (items : List α) (item : α) :
    (items ++ [item]).eraseDups
      = if item ∈ items then items.eraseDups else items.eraseDups ++ [item] := by
  rw [List.eraseDups_append]
  by_cases h : item ∈ items
  · simp [List.removeAll, h]
  · simp [List.removeAll, h, List.eraseDups_cons]

theorem nodup_eraseDups (items : List α) : items.eraseDups.Nodup := by
  induction items using List.reverseRecOn with
  | nil => exact List.nodup_nil
  | append_singleton items item ih =>
      rw [eraseDups_concat]
      by_cases h : item ∈ items
      · rw [if_pos h]
        exact ih
      · rw [if_neg h]
        refine List.nodup_append.mpr ⟨ih, List.pairwise_singleton _ _, ?_⟩
        intro a ha b hb heq
        rw [heq, List.mem_singleton.mp hb] at ha
        exact h (List.mem_eraseDups.mp ha)

theorem eraseDups_filter (keep : α → Bool) (items : List α) :
    (items.filter keep).eraseDups = items.eraseDups.filter keep := by
  induction items using List.reverseRecOn with
  | nil => rfl
  | append_singleton items item ih =>
      rw [List.filter_append, eraseDups_concat]
      by_cases hkeep : keep item = true
      · have hone : [item].filter keep = [item] := by simp [hkeep]
        rw [hone, eraseDups_concat, ih]
        by_cases h : item ∈ items
        · simp [h, hkeep]
        · simp [h, hkeep]
      · have hnone : [item].filter keep = [] := by simp [hkeep]
        rw [hnone, List.append_nil, ih]
        by_cases h : item ∈ items
        · simp [h]
        · simp [h, hkeep]

/-- Repetitions in the parts of a list do not matter. -/
theorem eraseDups_append_congr {first first' second second' : List α}
    (h : first.eraseDups = first'.eraseDups) (h' : second.eraseDups = second'.eraseDups) :
    (first ++ second).eraseDups = (first' ++ second').eraseDups := by
  have hmem : ∀ a, a ∈ first ↔ a ∈ first' := by
    intro a
    rw [← List.mem_eraseDups, h, List.mem_eraseDups]
  rw [List.eraseDups_append, List.eraseDups_append, h, List.removeAll, List.removeAll,
    eraseDups_filter, eraseDups_filter, h']
  simp only [List.elem_eq_mem, hmem]

theorem eraseDups_flatMap_congr {parts parts' : β → List α} (items : List β)
    (h : ∀ item ∈ items, (parts item).eraseDups = (parts' item).eraseDups) :
    (items.flatMap parts).eraseDups = (items.flatMap parts').eraseDups := by
  induction items with
  | nil => rfl
  | cons item rest ih =>
      obtain ⟨hitem, hrest⟩ := List.forall_mem_cons.mp h
      rw [List.flatMap_cons, List.flatMap_cons]
      exact eraseDups_append_congr hitem (ih hrest)

theorem eraseDups_of_forall_eq {items : List α} {item : α} (hne : items ≠ [])
    (h : ∀ other ∈ items, other = item) : items.eraseDups = [item] := by
  cases items with
  | nil => exact absurd rfl hne
  | cons first rest =>
      obtain ⟨rfl, hrest⟩ := List.forall_mem_cons.mp h
      have hnone : rest.filter (fun other => !other == first) = [] := by
        rw [List.filter_eq_nil_iff]
        intro other hother
        simp [hrest other hother]
      rw [List.eraseDups_cons, hnone, List.eraseDups_nil]

end EraseDups

/-! ### The order of rules and targets -/

/-- The target that a move gives to its rule with a kind of relation. -/
def Move.target? (move : Move) (kind : RelationKind) : Option PackagePattern :=
  (move.related.filter (·.1 = kind)).map Prod.snd

/-- The targets that some moves give to the rule of a pattern, in order. -/
def Move.targetsOf (moves : List Move) (pattern : PackagePattern) (kind : RelationKind) :
    List PackagePattern :=
  (moves.filter (·.pattern = pattern)).filterMap (·.target? kind)

theorem Move.targetsOf_flatMap {α : Type} (items : List α) (make : α → List Move)
    (pattern : PackagePattern) (kind : RelationKind) :
    targetsOf (items.flatMap make) pattern kind
      = items.flatMap fun item => targetsOf (make item) pattern kind := by
  unfold targetsOf
  rw [List.filter_flatMap, List.filterMap_flatMap]

theorem Move.targetsOf_append (moves more : List Move) (pattern : PackagePattern)
    (kind : RelationKind) : targetsOf (moves ++ more) pattern kind
      = targetsOf moves pattern kind ++ targetsOf more pattern kind := by
  unfold targetsOf
  rw [List.filter_append, List.filterMap_append]

theorem Move.targetsOf_singleton (move : Move) (pattern : PackagePattern) (kind : RelationKind) :
    targetsOf [move] pattern kind
      = if move.pattern = pattern then (move.target? kind).toList else [] := by
  unfold targetsOf
  by_cases hp : move.pattern = pattern
  · simp only [hp, decide_true, List.filter_cons_of_pos, List.filter_nil, if_true]
    cases h : move.target? kind <;> simp [h]
  · simp [hp]

theorem Move.mem_targetsOf {moves : List Move} {pattern target : PackagePattern}
    {kind : RelationKind} : target ∈ targetsOf moves pattern kind ↔
      ∃ move ∈ moves, move.pattern = pattern ∧ move.related = some (kind, target) := by
  simp only [targetsOf, target?, List.mem_filterMap, List.mem_filter, decide_eq_true_eq,
    Option.map_eq_some_iff, Option.filter_eq_some_iff, Prod.exists, and_assoc]
  simp

theorem Relations.appendNew_eraseDups (patterns : List PackagePattern) (pattern : PackagePattern) :
    appendNew patterns.eraseDups pattern = (patterns ++ [pattern]).eraseDups := by
  rw [eraseDups_concat, appendNew]
  simp only [List.contains_iff_mem, List.mem_eraseDups]

theorem Relations.ext_get {a b : Relations} (h : ∀ modality, a.get modality = b.get modality) :
    a = b := by
  obtain ⟨may, must, mustNot⟩ := a
  obtain ⟨may', must', mustNot'⟩ := b
  rw [Relations.mk.injEq]
  exact ⟨h .may, h .must, h .mustNot⟩

/-- A rule is told by its pattern, its targets and its mark. -/
theorem Rule.ext_targets {rule other : Rule} (hpattern : rule.pattern = other.pattern)
    (htargets : ∀ kind, rule.targets kind = other.targets kind)
    (hoptional : rule.optional = other.optional) : rule = other := by
  have hrelations : ∀ direction, rule.relations direction = other.relations direction :=
    fun direction => Relations.ext_get fun modality => htargets ⟨direction, modality⟩
  obtain ⟨pattern, uses, usedBy, optional⟩ := rule
  obtain ⟨pattern', uses', usedBy', optional'⟩ := other
  rw [Rule.mk.injEq]
  exact ⟨hpattern, hrelations .uses, hrelations .usedBy, hoptional⟩

/-- A move adds its target, unless it is there. -/
theorem Move.targets_change (move : Move) {rule : Rule} {kind : RelationKind}
    {patterns : List PackagePattern} (h : rule.targets kind = patterns.eraseDups) :
    (move.change rule).targets kind = (patterns ++ (move.target? kind).toList).eraseDups := by
  rw [targets_change_eq_relate, relate, target?]
  cases move.related with
  | none => simpa using h
  | some related =>
      obtain ⟨k, target⟩ := related
      show (rule.relate k target).targets kind = _
      rw [Rule.targets_relate, h]
      by_cases hk : k = kind
      · simp [hk, Option.filter_some, Relations.appendNew_eraseDups]
      · simp [hk, Option.filter_some]

theorem Sealing.map_pattern_changeRule (rules : List Rule) (move : Move) :
    (changeRule rules move.pattern move.change).map (·.pattern)
      = if move.pattern ∈ rules.map (·.pattern) then rules.map (·.pattern)
        else rules.map (·.pattern) ++ [move.pattern] := by
  have hany : rules.any (·.pattern == move.pattern) = true
      ↔ move.pattern ∈ rules.map (·.pattern) := by
    simp [List.any_eq_true, List.mem_map]
  unfold changeRule
  simp only [hany]
  split
  · rw [List.map_map]
    refine List.map_congr_left fun rule _ => ?_
    by_cases hp : rule.pattern = move.pattern
    · simp [hp, move.pattern_change]
    · simp [hp]
  · rw [List.map_append, List.map_singleton, move.pattern_change]

/-- Rules in the order of the moves that they are made of, with targets in that order too. -/
structure IsListedBy (rules : List Rule) (moves : List Move) : Prop where
  patterns : rules.map (·.pattern) = (moves.map (·.pattern)).eraseDups
  targets : ∀ rule ∈ rules, ∀ kind,
    rule.targets kind = (Move.targetsOf moves rule.pattern kind).eraseDups

namespace IsListedBy

variable {rules : List Rule} {moves : List Move}

/-- One more move. -/
theorem take (h : IsListedBy rules moves) (move : Move) :
    IsListedBy (Sealing.changeRule rules move.pattern move.change) (moves ++ [move]) := by
  refine ⟨?_, ?_⟩
  · rw [Sealing.map_pattern_changeRule, h.patterns, List.map_append, List.map_singleton,
      eraseDups_concat]
    simp only [List.mem_eraseDups]
  · intro rule hrule kind
    rw [Move.targetsOf_append, Move.targetsOf_singleton]
    rcases Sealing.mem_changeRule.mp hrule with ⟨hmem, hne⟩ | ⟨old, rfl, hold⟩
    · rw [if_neg fun hc => hne hc.symm, List.append_nil]
      exact h.targets rule hmem kind
    · rw [move.pattern_change]
      rcases hold with ⟨hmem, hp⟩ | ⟨rfl, hnone⟩
      · rw [if_pos hp.symm]
        exact move.targets_change (h.targets old hmem kind)
      · -- A new rule has no targets yet, and no earlier move was for its pattern.
        have hnot : ∀ m ∈ moves, m.pattern ≠ move.pattern := by
          intro m hm hp
          have hin : move.pattern ∈ rules.map (·.pattern) := by
            rw [h.patterns, List.mem_eraseDups]
            exact List.mem_map.mpr ⟨m, hm, hp⟩
          obtain ⟨other, hother, hpattern⟩ := List.mem_map.mp hin
          exact hnone other hother hpattern
        have hnil : Move.targetsOf moves move.pattern kind = [] := by
          have hfilter : moves.filter (·.pattern = move.pattern) = [] := by
            simpa [List.filter_eq_nil_iff] using hnot
          rw [Move.targetsOf, hfilter, List.filterMap_nil]
        have hfresh : Rule.targets { pattern := move.pattern } kind = List.eraseDups [] := by
          obtain ⟨direction, modality⟩ := kind
          cases direction <;> cases modality <;> rfl
        rw [if_pos rfl, hnil]
        exact move.targets_change hfresh

/-- All moves. -/
theorem takeAll (moves : List Move) : IsListedBy (Sealing.takeAll {} moves).rules moves := by
  induction moves using List.reverseRecOn with
  | nil => exact ⟨rfl, fun rule hrule => absurd hrule List.not_mem_nil⟩
  | append_singleton moves move ih =>
      rw [Sealing.takeAll_append]
      exact ih.take move

end IsListedBy

end PackageAudit
