/-
What a sealed rule set holds.

Declarations are sealed if all their texts are patterns and they are consistent.  There is then
one rule for each declared pattern, with each of its targets once, both in the order of first
declaration.  Otherwise the error is the one of the first entry at fault.
-/
import Mathlib.Data.List.Nodup
import PackageAudit.Proofs.Rules.Entries
import PackageAudit.Proofs.Rules.Judgements
import PackageAudit.Proofs.Rules.Listing

namespace PackageAudit

/-! ### Declarations -/

/-- The texts of a relation in the order in which they are read.  The targets are read for the
pattern of the relation, so not at all if its own text is no pattern. -/
def Relation.entries (declared : Relation × Nat) : List Entry :=
  .relation declared.2 declared.1.pattern ::
    (PackagePattern.ofText? declared.1.pattern).toList.flatMap fun pattern =>
      declared.1.targets.zipIdx.map fun target =>
        .target declared.2 pattern declared.1.kind target.2 target.1

/-- Whether a relation speaks of a dependency.  A relation in the direction of use has its own
pattern on the using side, one in the opposite direction on the used side. -/
def Relation.Declares (relation : Relation) (edge : DeclaredEdge) : Prop :=
  ∃ pattern, PackagePattern.ofText? relation.pattern = some pattern ∧
    ∃ text ∈ relation.targets, ∃ target, PackagePattern.ofText? text = some target
      ∧ edge = Sealing.edgeOf pattern relation.kind target

/-- The targets that a relation declares for a pattern with a kind. -/
def Relation.targetsOf (relation : Relation) (pattern : PackagePattern) (kind : RelationKind) :
    List PackagePattern :=
  if PackagePattern.ofText? relation.pattern = some pattern ∧ relation.kind = kind then
    relation.targets.filterMap PackagePattern.ofText?
  else []

theorem Sealing.edgeOf_inj {pattern target pattern' target' : PackagePattern}
    {kind kind' : RelationKind} : edgeOf pattern kind target = edgeOf pattern' kind' target' ↔
      pattern = pattern' ∧ kind = kind' ∧ target = target' := by
  refine ⟨?_, ?_⟩
  · intro h
    have hkinds : kind = kind' := by
      have hkind := congrArg DeclaredEdge.kind h
      unfold edgeOf at hkind
      split at hkind <;> split at hkind <;> exact hkind
    obtain rfl := hkinds
    unfold edgeOf at h
    split at h
    · obtain ⟨htarget, hpattern, -⟩ := DeclaredEdge.mk.inj h
      exact ⟨hpattern, rfl, htarget⟩
    · obtain ⟨hpattern, htarget, -⟩ := DeclaredEdge.mk.inj h
      exact ⟨hpattern, rfl, htarget⟩
  · intro h
    obtain ⟨rfl, rfl, rfl⟩ := h
    rfl

theorem Relation.mem_targetsOf {relation : Relation} {pattern target : PackagePattern}
    {kind : RelationKind} : target ∈ relation.targetsOf pattern kind ↔
      relation.Declares (Sealing.edgeOf pattern kind target) := by
  unfold targetsOf Declares
  simp only [Sealing.edgeOf_inj]
  refine ⟨?_, ?_⟩
  · intro hmem
    by_cases h : PackagePattern.ofText? relation.pattern = some pattern ∧ relation.kind = kind
    · rw [if_pos h, List.mem_filterMap] at hmem
      obtain ⟨text, htext, htarget⟩ := hmem
      exact ⟨pattern, h.1, text, htext, target, htarget, rfl, h.2.symm, rfl⟩
    · rw [if_neg h] at hmem
      exact absurd hmem List.not_mem_nil
  · rintro ⟨_, hpattern, text, htext, _, htarget, rfl, hkind, rfl⟩
    rw [if_pos ⟨hpattern, hkind.symm⟩, List.mem_filterMap]
    exact ⟨text, htext, htarget⟩

namespace RuleDeclarations

open Sealing

variable (declarations : RuleDeclarations)

/-- The texts of declarations in the order in which they are read. -/
def entries : List Entry :=
  declarations.rules.zipIdx.map (fun declared => .rule declared.2 declared.1)
    ++ declarations.relations.zipIdx.flatMap Relation.entries
    ++ declarations.externals.zipIdx.map fun declared => .external declared.2 declared.1

theorem addRelation_eq_foldlM (state : Sealing) (declared : Relation × Nat) :
    addRelation state declared = (Relation.entries declared).foldlM read state := by
  obtain ⟨relation, i⟩ := declared
  have hadd : addRelation state (relation, i) = parseAt (.relation i) relation.pattern >>=
      fun pattern => relation.targets.zipIdx.foldlM (addTarget i pattern relation.kind)
        { state with rules := changeRule state.rules pattern id } := rfl
  have hread : Sealing.read state (.relation i relation.pattern)
      = parseAt (.relation i) relation.pattern >>=
        fun pattern => .ok { state with rules := changeRule state.rules pattern id } := rfl
  rw [Relation.entries, List.foldlM_cons, hadd, hread, parseAt]
  cases htext : PackagePattern.parse relation.pattern with
  | error cause => rfl
  | ok pattern =>
      rw [PackagePattern.ofText?_eq_some_iff.mpr htext, Option.toList_some, List.flatMap_singleton]
      show _ = (relation.targets.zipIdx.map fun target =>
        Entry.target i pattern relation.kind target.2 target.1).foldlM Sealing.read _
      rw [List.foldlM_map]
      rfl

theorem seal_eq_foldlM : declarations.seal = declarations.entries.foldlM read {} >>= fun state =>
    .ok ⟨declarations.mode, state.rules, declarations.allowIntraPackageCycles⟩ := by
  simp only [entries, List.foldlM_append, List.foldlM_map, RuleSet.foldlM_flatMap,
    ← addRelation_eq_foldlM, bind_assoc]
  rfl

/-! ### Which declarations are sealed -/

/-- All declared texts. -/
def texts : List String :=
  declarations.rules ++ declarations.relations.flatMap (fun relation =>
    relation.pattern :: relation.targets) ++ declarations.externals

/-- Whether a relation speaks of a dependency. -/
def Declares (edge : DeclaredEdge) : Prop :=
  ∃ relation ∈ declarations.relations, relation.Declares edge

/-- Whether no dependency is declared both allowed and denied. -/
def Consistent : Prop :=
  ∀ source target allowed denied, declarations.Declares ⟨source, target, allowed⟩ →
    declarations.Declares ⟨source, target, denied⟩ → allowed.isDenial = denied.isDenial

theorem readable_iff :
    declarations.Readable ↔ ∀ text ∈ declarations.texts, PackagePattern.IsText text := by
  have hpattern : ∀ text, IsPattern text ↔ PackagePattern.IsText text :=
    fun _ => PackagePattern.isText_iff.symm
  refine ⟨?_, ?_⟩
  · intro h text htext
    rw [← hpattern]
    rw [texts, List.mem_append, List.mem_append, List.mem_flatMap] at htext
    rcases htext with (hrule | ⟨relation, hrelation, htext⟩) | hexternal
    · exact h.rules text hrule
    · rcases List.mem_cons.mp htext with rfl | htarget
      · exact (h.relations relation hrelation).1
      · exact (h.relations relation hrelation).2 text htarget
    · exact h.externals text hexternal
  · intro h
    simp only [texts, List.forall_mem_append, List.forall_mem_flatMap, List.forall_mem_cons,
      ← hpattern] at h
    exact ⟨h.1.1, h.1.2, h.2⟩

theorem mem_movesOf {make : PackagePattern → List Move} {text : String} {move : Move} :
    move ∈ movesOf make text ↔
      ∃ pattern, PackagePattern.ofText? text = some pattern ∧ move ∈ make pattern := by
  simp only [PackagePattern.ofText?_eq_some_iff, movesOf]
  cases PackagePattern.parse text <;> simp

/-- What the moves of declarations are. -/
theorem mem_moves {move : Move} : move ∈ declarations.moves ↔
    (∃ text ∈ declarations.rules, ∃ pattern, PackagePattern.ofText? text = some pattern
        ∧ move = { pattern })
      ∨ (∃ relation ∈ declarations.relations, ∃ pattern,
        PackagePattern.ofText? relation.pattern = some pattern ∧
          (move = { pattern } ∨ ∃ text ∈ relation.targets, ∃ target,
            PackagePattern.ofText? text = some target
              ∧ move = { pattern, related := some (relation.kind, target) }))
      ∨ ∃ text ∈ declarations.externals, ∃ pattern, PackagePattern.ofText? text = some pattern
        ∧ move = ⟨pattern, some (⟨.usedBy, .may⟩, .every), true⟩ := by
  simp only [moves, List.mem_append, List.mem_flatMap, ruleMoves, relationMoves, externalMoves,
    targetMoves, mem_movesOf, List.mem_cons, List.not_mem_nil, or_false, or_assoc]

theorem declares_iff {edge : DeclaredEdge} :
    declarations.Declares edge ↔ edge ∈ declarations.moves.filterMap Move.edge? := by
  rw [List.mem_filterMap]
  refine ⟨?_, ?_⟩
  · rintro ⟨relation, hrelation, pattern, hpattern, text, htext, target, htarget, rfl⟩
    exact ⟨{ pattern, related := some (relation.kind, target) },
      (mem_moves _).mpr (Or.inr (Or.inl ⟨relation, hrelation, pattern, hpattern,
        Or.inr ⟨text, htext, target, htarget, rfl⟩⟩)), rfl⟩
  · rintro ⟨move, hmove, hedge⟩
    rcases (mem_moves _).mp hmove with ⟨_, _, _, _, rfl⟩
      | ⟨relation, hrelation, pattern, hpattern, hmove⟩ | ⟨_, _, _, _, rfl⟩
    · cases hedge
    · rcases hmove with rfl | ⟨text, htext, target, htarget, rfl⟩
      · cases hedge
      · exact ⟨relation, hrelation, pattern, hpattern, text, htext, target, htarget,
          (Option.some.inj hedge).symm⟩
    · cases hedge

theorem agree_iff_consistent :
    Agree (declarations.moves.filterMap Move.edge?) ↔ declarations.Consistent := by
  rw [agree_iff]
  simp only [← declares_iff]
  refine ⟨?_, ?_⟩
  · intro h source target allowed denied hallowed hdenied
    by_contra hne
    exact h _ hallowed _ hdenied ⟨rfl, rfl, hne⟩
  · intro h e he f hf hcontra
    obtain ⟨source, target, kind⟩ := e
    obtain ⟨rfl, rfl, hne⟩ := hcontra
    exact hne (h _ _ _ _ he hf)

/-! ### The sealed rules -/

/-- The patterns of the declared externals. -/
def externalPatterns : List PackagePattern :=
  declarations.externals.filterMap PackagePattern.ofText?

/-- The patterns that are declared as rules, with relations or as externals, in this order. -/
def patterns : List PackagePattern :=
  (declarations.rules ++ declarations.relations.map (·.pattern)).filterMap PackagePattern.ofText?
    ++ declarations.externalPatterns

theorem mem_patterns {pattern : PackagePattern} : pattern ∈ declarations.patterns ↔
    ∃ text ∈ declarations.rules ++ declarations.relations.map (·.pattern)
        ++ declarations.externals,
      PackagePattern.ofText? text = some pattern := by
  rw [patterns, externalPatterns, ← List.filterMap_append, List.mem_filterMap]

/-- The targets that are declared for a pattern with a kind.  Everyone may use an external
package. -/
def targetsOf (pattern : PackagePattern) (kind : RelationKind) : List PackagePattern :=
  declarations.relations.flatMap (·.targetsOf pattern kind)
    ++ if kind = ⟨.usedBy, .may⟩ ∧ pattern ∈ declarations.externalPatterns then [.every] else []

/-- The rule of a pattern: each declared target once. -/
def ruleOf (pattern : PackagePattern) : Rule where
  pattern := pattern
  uses := {
    may := (declarations.targetsOf pattern ⟨.uses, .may⟩).eraseDups
    must := (declarations.targetsOf pattern ⟨.uses, .must⟩).eraseDups
    mustNot := (declarations.targetsOf pattern ⟨.uses, .mustNot⟩).eraseDups }
  usedBy := {
    may := (declarations.targetsOf pattern ⟨.usedBy, .may⟩).eraseDups
    must := (declarations.targetsOf pattern ⟨.usedBy, .must⟩).eraseDups
    mustNot := (declarations.targetsOf pattern ⟨.usedBy, .mustNot⟩).eraseDups }
  optional := pattern ∈ declarations.externalPatterns

/-- The rules of all patterns. -/
def sealedRules : RuleSet where
  mode := declarations.mode
  rules := declarations.patterns.eraseDups.map declarations.ruleOf
  allowIntraPackageCycles := declarations.allowIntraPackageCycles

theorem targets_ruleOf (pattern : PackagePattern) (kind : RelationKind) :
    (declarations.ruleOf pattern).targets kind
      = (declarations.targetsOf pattern kind).eraseDups := by
  obtain ⟨direction, modality⟩ := kind
  cases direction <;> cases modality <;> rfl

/-- The patterns of moves that are read off some items, each with the pattern of its text. -/
theorem eraseDups_map_pattern_flatMap {α : Type} (items : List α) (text : α → String)
    (make : α → PackagePattern → List Move)
    (hmake : ∀ item pattern, make item pattern ≠ []
      ∧ ∀ move ∈ make item pattern, move.pattern = pattern) :
    ((items.flatMap fun item => movesOf (make item) (text item)).map (·.pattern)).eraseDups
      = ((items.map text).filterMap PackagePattern.ofText?).eraseDups := by
  rw [List.map_flatMap, List.filterMap_map, List.filterMap_eq_flatMap_toList]
  refine eraseDups_flatMap_congr items fun item _ => ?_
  simp only [Function.comp_apply, movesOf, PackagePattern.ofText?]
  cases PackagePattern.parse (text item) with
  | error cause => rfl
  | ok pattern =>
      obtain ⟨hne, hall⟩ := hmake item pattern
      show ((make item pattern).map (·.pattern)).eraseDups = [pattern].eraseDups
      rw [eraseDups_of_forall_eq (by simpa using hne) (by simpa using hall),
        List.eraseDups_cons]
      rfl

theorem eraseDups_map_pattern_moves :
    (declarations.moves.map (·.pattern)).eraseDups = declarations.patterns.eraseDups := by
  rw [moves, patterns, externalPatterns, List.map_append, List.map_append, List.filterMap_append]
  refine eraseDups_append_congr (eraseDups_append_congr ?_ ?_) ?_
  · have h := eraseDups_map_pattern_flatMap declarations.rules id
      (fun _ pattern => [{ pattern }]) (by simp)
    rw [List.map_id] at h
    exact h
  · refine eraseDups_map_pattern_flatMap declarations.relations (·.pattern) _ ?_
    intro relation pattern
    refine ⟨List.cons_ne_nil _ _, ?_⟩
    intro move hmove
    rcases List.mem_cons.mp hmove with rfl | htarget
    · rfl
    · obtain ⟨text, -, htext⟩ := List.mem_flatMap.mp htarget
      obtain ⟨target, -, hmove⟩ := mem_movesOf.mp htext
      rw [List.mem_singleton.mp hmove]
  · have h := eraseDups_map_pattern_flatMap declarations.externals id
      (fun _ pattern => [⟨pattern, some (⟨.usedBy, .may⟩, .every), true⟩]) (by simp)
    rw [List.map_id] at h
    exact h

theorem targetsOf_targetMoves (owner pattern : PackagePattern) (kind k : RelationKind)
    (text : String) : Move.targetsOf (targetMoves owner kind text) pattern k
      = if owner = pattern ∧ kind = k then (PackagePattern.ofText? text).toList else [] := by
  unfold targetMoves movesOf PackagePattern.ofText?
  cases PackagePattern.parse text with
  | error cause => simp [Move.targetsOf, Except.toOption]
  | ok target =>
      show Move.targetsOf [_] pattern k = _
      rw [Move.targetsOf_singleton]
      by_cases howner : owner = pattern
      · by_cases hkind : kind = k <;>
          simp [Move.target?, Except.toOption, howner, hkind, Option.filter_some]
      · simp [howner]

theorem targetsOf_relationMoves (relation : Relation) (pattern : PackagePattern)
    (kind : RelationKind) :
    Move.targetsOf (relationMoves relation) pattern kind = relation.targetsOf pattern kind := by
  rw [relationMoves, movesOf, Relation.targetsOf]
  cases htext : PackagePattern.parse relation.pattern with
  | error cause => simp [Move.targetsOf, PackagePattern.ofText?, htext, Except.toOption]
  | ok owner =>
      have hfirst : Move.targetsOf [{ pattern := owner }] pattern kind = [] := by
        simp [Move.targetsOf_singleton, Move.target?]
      have hrest : Move.targetsOf
          (relation.targets.flatMap (targetMoves owner relation.kind)) pattern kind
            = if owner = pattern ∧ relation.kind = kind then
                relation.targets.filterMap PackagePattern.ofText? else [] := by
        simp only [Move.targetsOf_flatMap, targetsOf_targetMoves,
          List.filterMap_eq_flatMap_toList]
        split
        · rfl
        · simp
      simp only [PackagePattern.ofText?_eq_some_iff.mpr htext, Option.some.injEq, ← hrest]
      show Move.targetsOf ([{ pattern := owner }]
        ++ relation.targets.flatMap (targetMoves owner relation.kind)) pattern kind = _
      rw [Move.targetsOf_append, hfirst, List.nil_append]

/-- Each external allows everyone to use its packages. -/
theorem eraseDups_targetsOf_externalMoves (pattern : PackagePattern) (kind : RelationKind) :
    (Move.targetsOf (declarations.externals.flatMap externalMoves) pattern kind).eraseDups
      = (if kind = ⟨.usedBy, .may⟩ ∧ pattern ∈ declarations.externalPatterns then
          [PackagePattern.every] else []).eraseDups := by
  have hmem : ∀ target, target ∈ Move.targetsOf (declarations.externals.flatMap externalMoves)
      pattern kind ↔ (kind = ⟨.usedBy, .may⟩ ∧ pattern ∈ declarations.externalPatterns)
        ∧ target = .every := by
    intro target
    simp only [Move.mem_targetsOf, List.mem_flatMap, externalMoves, mem_movesOf,
      List.mem_singleton, externalPatterns, List.mem_filterMap]
    refine ⟨?_, ?_⟩
    · rintro ⟨move, ⟨text, htext, p, hp, rfl⟩, rfl, hrelated⟩
      cases hrelated
      exact ⟨⟨rfl, text, htext, hp⟩, rfl⟩
    · rintro ⟨⟨rfl, text, htext, hp⟩, rfl⟩
      exact ⟨_, ⟨text, htext, pattern, hp, rfl⟩, rfl, rfl⟩
  by_cases h : kind = ⟨.usedBy, .may⟩ ∧ pattern ∈ declarations.externalPatterns
  · have hevery := (hmem .every).mpr ⟨h, rfl⟩
    rw [if_pos h, eraseDups_of_forall_eq (List.ne_nil_of_mem hevery)
      fun target htarget => ((hmem target).mp htarget).2]
    rfl
  · have hnil :
        Move.targetsOf (declarations.externals.flatMap externalMoves) pattern kind = [] := by
      rw [List.eq_nil_iff_forall_not_mem]
      exact fun target htarget => h ((hmem target).mp htarget).1
    rw [if_neg h, hnil]

theorem eraseDups_targetsOf_moves (pattern : PackagePattern) (kind : RelationKind) :
    (Move.targetsOf declarations.moves pattern kind).eraseDups
      = (declarations.targetsOf pattern kind).eraseDups := by
  have hrules : Move.targetsOf (declarations.rules.flatMap ruleMoves) pattern kind = [] := by
    rw [List.eq_nil_iff_forall_not_mem]
    intro target htarget
    obtain ⟨move, hmove, -, hrelated⟩ := Move.mem_targetsOf.mp htarget
    obtain ⟨text, -, htext⟩ := List.mem_flatMap.mp hmove
    obtain ⟨pattern, -, hmove⟩ := mem_movesOf.mp htext
    rw [List.mem_singleton.mp hmove] at hrelated
    cases hrelated
  rw [moves, targetsOf, Move.targetsOf_append, Move.targetsOf_append, hrules, List.nil_append,
    Move.targetsOf_flatMap]
  simp only [targetsOf_relationMoves]
  exact eraseDups_append_congr rfl (declarations.eraseDups_targetsOf_externalMoves pattern kind)

theorem isExternal_iff (pattern : PackagePattern) :
    (∃ move ∈ declarations.moves, move.pattern = pattern ∧ move.isExternal = true) ↔
      pattern ∈ declarations.externalPatterns := by
  rw [externalPatterns, List.mem_filterMap]
  refine ⟨?_, ?_⟩
  · rintro ⟨move, hmove, rfl, hexternal⟩
    rcases (mem_moves _).mp hmove with ⟨_, _, _, _, rfl⟩ | ⟨_, _, _, _, hmove⟩
      | ⟨text, htext, pattern, hpattern, rfl⟩
    · cases hexternal
    · rcases hmove with rfl | ⟨_, _, _, _, rfl⟩ <;> cases hexternal
    · exact ⟨text, htext, hpattern⟩
  · rintro ⟨text, htext, hpattern⟩
    exact ⟨_, (mem_moves _).mpr (Or.inr (Or.inr ⟨text, htext, pattern, hpattern, rfl⟩)), rfl, rfl⟩

theorem rules_takeAll_moves :
    (takeAll {} declarations.moves).rules = declarations.sealedRules.rules := by
  have hlisted := IsListedBy.takeAll declarations.moves
  have hmade := IsMadeOf.takeAll declarations.moves
  have hrule : ∀ rule ∈ (takeAll {} declarations.moves).rules,
      rule = declarations.ruleOf rule.pattern := by
    intro rule hmem
    refine Rule.ext_targets rfl ?_ ?_
    · intro kind
      rw [hlisted.targets rule hmem, eraseDups_targetsOf_moves, targets_ruleOf]
    · rw [Bool.eq_iff_iff, hmade.optional rule hmem, isExternal_iff]
      simp [ruleOf]
  calc (takeAll {} declarations.moves).rules
      = ((takeAll {} declarations.moves).rules.map (·.pattern)).map declarations.ruleOf := by
        rw [List.map_map]
        exact (List.map_id _).symm.trans (List.map_congr_left hrule)
    _ = declarations.sealedRules.rules := by
        rw [hlisted.patterns, eraseDups_map_pattern_moves]
        rfl

theorem seal_eq_ok_iff_sealedRules {rules : RuleSet} : declarations.seal = .ok rules ↔
    (∀ text ∈ declarations.texts, PackagePattern.IsText text) ∧ declarations.Consistent ∧
      rules = declarations.sealedRules := by
  rw [seal_eq_ok_iff, readable_iff, agree_iff_consistent, rules_takeAll_moves]
  rfl

/-- A sealed rule relates its pattern to what the relations declare, and one for an external
package has everyone among those who may use it. -/
theorem mem_targets_ruleOf {pattern target : PackagePattern} {kind : RelationKind} :
    target ∈ (declarations.ruleOf pattern).targets kind ↔
      declarations.Declares (edgeOf pattern kind target)
        ∨ kind = ⟨.usedBy, .may⟩ ∧ pattern ∈ declarations.externalPatterns ∧ target = .every := by
  rw [targets_ruleOf, List.mem_eraseDups, targetsOf, List.mem_append, List.mem_flatMap]
  refine or_congr (exists_congr fun relation => and_congr_right fun _ => Relation.mem_targetsOf) ?_
  by_cases h : kind = ⟨.usedBy, .may⟩ ∧ pattern ∈ declarations.externalPatterns
  · simp [h]
  · rw [if_neg h, ← and_assoc]
    simp [h]

/-! ### Success and failure -/

theorem declares_of_mem_entries {entry : Entry} {edge : DeclaredEdge}
    (hentry : entry ∈ declarations.entries) (hedge : entry.edge? = some edge) :
    declarations.Declares edge := by
  simp only [entries, Relation.entries, List.mem_append, List.mem_map, List.mem_flatMap,
    List.mem_cons, Option.mem_toList] at hentry
  rcases hentry with (⟨_, _, rfl⟩ | ⟨declared, hdeclared, rfl | hrest⟩) | ⟨_, _, rfl⟩
  · cases hedge
  · cases hedge
  · obtain ⟨pattern, hpattern, text, htext, rfl⟩ := hrest
    obtain ⟨target, htarget, rfl⟩ := Option.map_eq_some_iff.mp hedge
    exact ⟨declared.1, List.fst_mem_of_mem_zipIdx hdeclared, pattern, hpattern, text.1,
      List.fst_mem_of_mem_zipIdx htext, target, htarget, rfl⟩
  · cases hedge

theorem seal_eq_error_iff {error : RuleSetError} : declarations.seal = .error error ↔
    ∃ before entry after, declarations.entries = before ++ entry :: after ∧
      IsFaultless before ∧ Stops before entry error := by
  have hfold : declarations.seal = .error error ↔
      declarations.entries.foldlM Sealing.read {} = .error error := by
    rw [seal_eq_foldlM]
    cases declarations.entries.foldlM Sealing.read {} with
    | error fault => simp [Bind.bind, Except.bind]
    | ok state => simp [Bind.bind, Except.bind]
  rw [hfold, foldlM_eq_error_iff]
  refine exists_congr fun before => exists_congr fun entry => exists_congr fun after =>
    and_congr_right fun _ => ?_
  have hstate : (takeAll {} (before.flatMap Entry.moves)).edges
      = before.filterMap Entry.edge? := by
    rw [edges_takeAll, Entry.filterMap_edge?_flatMap_moves]
    rfl
  refine ⟨?_, ?_⟩
  · rintro ⟨state, hbefore, hread⟩
    obtain ⟨hfaultless, rfl⟩ := (foldlM_read_eq_ok_iff before state).mp hbefore
    exact ⟨hfaultless, (read_eq_error_iff hfaultless.agree hstate entry).mp hread⟩
  · rintro ⟨hfaultless, hstops⟩
    exact ⟨_, (foldlM_read_eq_ok_iff before _).mpr ⟨hfaultless, rfl⟩,
      (read_eq_error_iff hfaultless.agree hstate entry).mpr hstops⟩

/-- The kinds that a conflict names are declared, one allows the dependency and one denies it. -/
theorem declares_of_conflict {source target : PackagePattern} {allowed denied : RelationKind}
    (h : declarations.seal = .error (.conflict source target allowed denied)) :
    declarations.Declares ⟨source, target, allowed⟩ ∧ allowed.isDenial = false ∧
      declarations.Declares ⟨source, target, denied⟩ ∧ denied.isDenial = true := by
  obtain ⟨before, entry, after, hentries, -, hstops⟩ := declarations.seal_eq_error_iff.mp h
  have hdeclares : ∀ edge ∈ (before ++ [entry]).filterMap Entry.edge?,
      declarations.Declares edge := by
    intro edge hmem
    obtain ⟨found, hfound, hedge⟩ := List.mem_filterMap.mp hmem
    refine declarations.declares_of_mem_entries ?_ hedge
    rw [hentries, List.append_cons]
    exact List.mem_append_left _ hfound
  cases hstops with
  | conflicting _ _ _ _ hallowed hdenied =>
      obtain ⟨hmem, hallows⟩ := exists_mem_of_firstKind? hallowed
      obtain ⟨hmem', hdenies⟩ := exists_mem_of_firstKind? hdenied
      exact ⟨hdeclares _ hmem, hallows, hdeclares _ hmem', hdenies⟩

/-- Declarations are sealed if all texts are patterns and no dependency is declared both allowed
and denied, and give one rule for each pattern, in the order of first declaration.  Otherwise the
first entry at fault tells the error. -/
theorem seal_results :
    (∀ rules, declarations.seal = .ok rules ↔
      (∀ text ∈ declarations.texts, PackagePattern.IsText text) ∧ declarations.Consistent ∧
        rules = declarations.sealedRules) ∧
    (declarations.sealedRules.rules.map (·.pattern.text)).Nodup ∧
    (∀ error, declarations.seal = .error error ↔
      ∃ before entry after, declarations.entries = before ++ entry :: after ∧
        IsFaultless before ∧ Stops before entry error) ∧
    ∀ source target allowed denied,
      declarations.seal = .error (.conflict source target allowed denied) →
        declarations.Declares ⟨source, target, allowed⟩ ∧ allowed.isDenial = false ∧
          declarations.Declares ⟨source, target, denied⟩ ∧ denied.isDenial = true := by
  refine ⟨fun _ => declarations.seal_eq_ok_iff_sealedRules, ?_,
    fun _ => declarations.seal_eq_error_iff, ?_⟩
  · have htexts : declarations.sealedRules.rules.map (·.pattern.text)
        = declarations.patterns.eraseDups.map (·.text) := by
      rw [sealedRules, List.map_map]
      rfl
    rw [htexts]
    refine (nodup_eraseDups _).map_on ?_
    intro pattern hpattern pattern' hpattern' heq
    obtain ⟨text, -, htext⟩ := declarations.mem_patterns.mp (List.mem_eraseDups.mp hpattern)
    obtain ⟨text', -, htext'⟩ := declarations.mem_patterns.mp (List.mem_eraseDups.mp hpattern')
    exact PackagePattern.text_inj_of_ofText? htext htext' heq
  · intro source target allowed denied h
    exact declarations.declares_of_conflict h

-- Two relations of opposite directions that speak of the same dependency.
example : RuleDeclarations.seal {
      mode := .denyByDefault
      relations := [⟨"a", ⟨.uses, .may⟩, ["b"]⟩, ⟨"b", ⟨.usedBy, .mustNot⟩, ["c", " a"]⟩] }
    = .error (.conflict (.exact "a") (.exact "b") ⟨.uses, .may⟩ ⟨.usedBy, .mustNot⟩) := by
  decide +kernel

end RuleDeclarations

end PackageAudit
