/-
What sealing makes of declarations.

Sealing reads one declared text after the other, and each one that it can read is a move: it
changes the rule of one pattern, and it may speak of a dependency.  Sealing succeeds if every
text is a pattern and no two moves contradict each other, and the rules are then what the moves
make of no rules at all.  What a rule holds in the end is said of the moves as a set, so that
nothing but the order of the rules and of their targets depends on the order of the moves.
-/
import PackageAudit.Proofs.Traversal
import PackageAudit.Rules.RuleSet

namespace PackageAudit

/-! ### Moves -/

/-- What a declaration does to the rule of a pattern, which is made if there is none: the rule may
be related to a target, and it may be marked as one for an external package. -/
structure Move where
  pattern : PackagePattern
  related : Option (RelationKind × PackagePattern) := none
  isExternal : Bool := false

namespace Move

/-- The rule with the relation of the move. -/
def relate (move : Move) (rule : Rule) : Rule :=
  match move.related with
  | none => rule
  | some (kind, target) => rule.relate kind target

/-- The rule after the move. -/
def change (move : Move) (rule : Rule) : Rule :=
  if move.isExternal then { move.relate rule with optional := true } else move.relate rule

/-- The dependency that the move speaks of.  An external package speaks of none. -/
def edge? (move : Move) : Option DeclaredEdge :=
  if move.isExternal then none
  else match move.related with
    | none => none
    | some (kind, target) => some (Sealing.edgeOf move.pattern kind target)

end Move

/-- Whether one of two relations allows the dependency that the other denies. -/
def DeclaredEdge.Contradicts (e f : DeclaredEdge) : Prop :=
  e.source = f.source ∧ e.target = f.target ∧ e.kind.isDenial ≠ f.kind.isDenial

theorem DeclaredEdge.Contradicts.symm {e f : DeclaredEdge} (h : e.Contradicts f) :
    f.Contradicts e :=
  ⟨h.1.symm, h.2.1.symm, h.2.2.symm⟩

/-- Whether no two of some dependencies contradict each other. -/
def Agree (edges : List DeclaredEdge) : Prop := edges.Pairwise fun e f => ¬e.Contradicts f

theorem Agree.of_perm {edges edges' : List DeclaredEdge} (h : Agree edges)
    (hperm : edges.Perm edges') : Agree edges' :=
  (hperm.pairwise_iff fun hnot hc => hnot hc.symm).mp h

namespace Sealing

/-- The state after a move. -/
def take (state : Sealing) (move : Move) : Sealing where
  rules := changeRule state.rules move.pattern move.change
  edges := state.edges ++ move.edge?.toList

/-- The state after some moves. -/
def takeAll (state : Sealing) (moves : List Move) : Sealing := moves.foldl take state

theorem takeAll_append (state : Sealing) (moves more : List Move) :
    state.takeAll (moves ++ more) = (state.takeAll moves).takeAll more :=
  List.foldl_append

theorem edges_takeAll (state : Sealing) (moves : List Move) :
    (state.takeAll moves).edges = state.edges ++ moves.filterMap Move.edge? := by
  induction moves generalizing state with
  | nil => exact (List.append_nil _).symm
  | cons move rest ih =>
      show ((state.take move).takeAll rest).edges = _
      rw [ih, take, List.append_assoc, List.filterMap_cons]
      cases move.edge? <;> rfl

/-- What moves agree with, fewer of them agree with. -/
theorem agree_of_takeAll {state : Sealing} {moves : List Move}
    (h : Agree (state.takeAll moves).edges) : Agree state.edges := by
  rw [edges_takeAll] at h
  exact (List.pairwise_append.mp h).1

theorem contradicting?_eq_none_iff {edges : List DeclaredEdge} {edge : DeclaredEdge} :
    contradicting? edges edge = none ↔ ∀ e ∈ edges, ¬e.Contradicts edge := by
  rw [contradicting?, List.find?_eq_none]
  refine forall_congr' fun e => imp_congr_right fun _ => not_congr ?_
  simp [DeclaredEdge.Contradicts, and_assoc]

theorem agree_concat_iff {edges : List DeclaredEdge} {edge : DeclaredEdge} :
    Agree (edges ++ [edge]) ↔ Agree edges ∧ contradicting? edges edge = none := by
  rw [contradicting?_eq_none_iff, Agree, List.pairwise_append]
  simp [Agree]

/-! ### Steps -/

/-- The result of a step that reads something and takes the moves of it.  It fails if there is
something that can not be read, or if a move contradicts an earlier one. -/
def Takes (result : Except RuleSetError Sealing) (state : Sealing) (readable : Prop)
    (moves : List Move) : Prop :=
  ∀ after, result = .ok after ↔
    readable ∧ Agree (state.takeAll moves).edges ∧ after = state.takeAll moves

/-- Whether a text is a pattern. -/
def IsPattern (text : String) : Prop := ∃ pattern, PackagePattern.parse text = .ok pattern

/-- The moves that a text gives as a pattern, none if it is no pattern. -/
def movesOf (make : PackagePattern → List Move) (text : String) : List Move :=
  match PackagePattern.parse text with
  | .ok pattern => make pattern
  | .error _ => []

namespace Takes

variable {state : Sealing} {readable : Prop} {moves : List Move}

theorem nil (hagree : Agree state.edges) : Takes (.ok state) state True [] := by
  intro after
  simp [takeAll, hagree, eq_comm]

/-- A move that speaks of no dependency. -/
theorem silent (move : Move) {change : Rule → Rule} (hagree : Agree state.edges)
    (hedge : move.edge? = none) (hchange : change = move.change) :
    Takes (.ok { state with rules := changeRule state.rules move.pattern change }) state True
      [move] := by
  subst hchange
  intro after
  have htake : state.takeAll [move]
      = { state with rules := changeRule state.rules move.pattern move.change } := by
    simp [takeAll, take, hedge]
  simp [htake, hagree, eq_comm]

/-- A move that speaks of a dependency which no earlier move contradicts. -/
theorem speaking (move : Move) {edge : DeclaredEdge} (hagree : Agree state.edges)
    (hedge : move.edge? = some edge) (hnone : contradicting? state.edges edge = none) :
    Takes (.ok (state.take move)) state True [move] := by
  intro after
  have hedges : Agree (state.take move).edges := by
    rw [take, hedge]
    exact agree_concat_iff.mpr ⟨hagree, hnone⟩
  simp [takeAll, hedges, eq_comm]

/-- A move that speaks of a dependency which an earlier move contradicts. -/
theorem contradicted (move : Move) {edge earlier : DeclaredEdge} {error : RuleSetError}
    (hedge : move.edge? = some edge) (hsome : contradicting? state.edges edge = some earlier) :
    Takes (.error error) state True [move] := by
  intro after
  have hedges : ¬Agree (state.takeAll [move]).edges := by
    intro hagree
    rw [edges_takeAll, List.filterMap_cons, hedge] at hagree
    rw [(agree_concat_iff.mp hagree).2] at hsome
    exact nomatch hsome
  simp [hedges]

/-- One step after the other. -/
theorem bind {result : Except RuleSetError Sealing} {next : Sealing → Except RuleSetError Sealing}
    {readable' : Prop} {more : List Move} (h : Takes result state readable moves)
    (hnext : ∀ between, Agree between.edges → Takes (next between) between readable' more) :
    Takes (result >>= next) state (readable ∧ readable') (moves ++ more) := by
  intro after
  rw [bind_eq_ok_iff, takeAll_append]
  refine ⟨?_, ?_⟩
  · rintro ⟨between, hresult, hafter⟩
    obtain ⟨hread, hagree, rfl⟩ := (h between).mp hresult
    obtain ⟨hread', hagree', rfl⟩ := (hnext _ hagree after).mp hafter
    exact ⟨⟨hread, hread'⟩, hagree', rfl⟩
  · rintro ⟨⟨hread, hread'⟩, hagree', rfl⟩
    have hagree := agree_of_takeAll hagree'
    exact ⟨_, (h _).mpr ⟨hread, hagree, rfl⟩, (hnext _ hagree _).mpr ⟨hread', hagree', rfl⟩⟩

/-- One step for each of some items. -/
theorem foldlM {β : Type} {step : Sealing → β → Except RuleSetError Sealing}
    {readable : β → Prop} {moves : β → List Move}
    (h : ∀ state item, Agree state.edges →
      Takes (step state item) state (readable item) (moves item))
    (items : List β) (hagree : Agree state.edges) :
    Takes (items.foldlM step state) state (∀ item ∈ items, readable item)
      (items.flatMap moves) := by
  induction items generalizing state with
  | nil =>
      have h : Takes (pure state) state True [] := nil hagree
      simpa using h
  | cons item rest ih =>
      rw [List.foldlM_cons, List.flatMap_cons, List.forall_mem_cons]
      exact (h state item hagree).bind fun _ hnext => ih hnext

/-- One step for each of some items with their positions, which the moves do not depend on. -/
theorem foldlM_zipIdx {β : Type} {step : Sealing → β × Nat → Except RuleSetError Sealing}
    {readable : β → Prop} {moves : β → List Move}
    (h : ∀ state declared, Agree state.edges →
      Takes (step state declared) state (readable declared.1) (moves declared.1))
    (items : List β) (hagree : Agree state.edges) :
    Takes (items.zipIdx.foldlM step state) state (∀ item ∈ items, readable item)
      (items.flatMap moves) := by
  have hfold := foldlM h items.zipIdx hagree
  rwa [← List.forall_mem_map, ← List.flatMap_map Prod.fst moves, List.zipIdx_map_fst] at hfold

/-- A step that starts with a text that is read as a pattern. -/
theorem parse {site : PatternSite} {text : String}
    {next : PackagePattern → Except RuleSetError Sealing} {make : PackagePattern → List Move}
    (h : ∀ pattern, Takes (next pattern) state readable (make pattern)) :
    Takes (parseAt site text >>= next) state (IsPattern text ∧ readable) (movesOf make text) := by
  intro after
  rw [bind_eq_ok_iff, parseAt, IsPattern, movesOf]
  cases PackagePattern.parse text with
  | error cause => simp
  | ok pattern =>
      have hnext := h pattern after
      simp [hnext]

end Takes

/-! ### The moves of declarations -/

/-- The move of a declared rule. -/
def ruleMoves : String → List Move := movesOf fun pattern => [{ pattern }]

/-- The move of a target of a relation. -/
def targetMoves (pattern : PackagePattern) (kind : RelationKind) : String → List Move :=
  movesOf fun target => [{ pattern, related := some (kind, target) }]

/-- The moves of a relation: its rule, and then each of its targets. -/
def relationMoves (relation : Relation) : List Move :=
  movesOf (fun pattern =>
      { pattern } :: relation.targets.flatMap (targetMoves pattern relation.kind))
    relation.pattern

/-- The move of an external package, which everyone may use. -/
def externalMoves : String → List Move :=
  movesOf fun pattern => [⟨pattern, some (⟨.usedBy, .may⟩, .every), true⟩]

section Steps

variable {state : Sealing} (hagree : Agree state.edges)
include hagree

theorem takes_addRule (declared : String × Nat) :
    Takes (addRule state declared) state (IsPattern declared.1) (ruleMoves declared.1) := by
  have h : Takes (addRule state declared) state (IsPattern declared.1 ∧ True)
      (ruleMoves declared.1) :=
    Takes.parse fun pattern => Takes.silent { pattern } hagree rfl rfl
  rwa [and_true] at h

theorem takes_addTarget (i : Nat) (pattern : PackagePattern) (kind : RelationKind)
    (declared : String × Nat) : Takes (addTarget i pattern kind state declared) state
      (IsPattern declared.1) (targetMoves pattern kind declared.1) := by
  have h : Takes (addTarget i pattern kind state declared) state (IsPattern declared.1 ∧ True)
      (targetMoves pattern kind declared.1) := by
    refine Takes.parse fun target => ?_
    have hedge : Move.edge? { pattern, related := some (kind, target) }
        = some (edgeOf pattern kind target) := rfl
    cases hcontra : contradicting? state.edges (edgeOf pattern kind target) with
    | none =>
        simp only [hcontra]
        exact Takes.speaking _ hagree hedge hcontra
    | some earlier =>
        simp only [hcontra]
        split
        · exact Takes.contradicted _ hedge hcontra
        · exact Takes.contradicted _ hedge hcontra
  rwa [and_true] at h

theorem takes_addRelation (declared : Relation × Nat) :
    Takes (addRelation state declared) state
      (IsPattern declared.1.pattern ∧ ∀ target ∈ declared.1.targets, IsPattern target)
      (relationMoves declared.1) := by
  refine Takes.parse fun pattern => ?_
  have hfirst : Takes (.ok { state with rules := changeRule state.rules pattern id }) state True
      [{ pattern }] := Takes.silent { pattern } hagree rfl rfl
  have hrest : ∀ next : Sealing, Agree next.edges →
      Takes (declared.1.targets.zipIdx.foldlM (addTarget declared.2 pattern declared.1.kind) next)
        next (∀ target ∈ declared.1.targets, IsPattern target)
        (declared.1.targets.flatMap (targetMoves pattern declared.1.kind)) :=
    fun next hnext => Takes.foldlM_zipIdx
      (fun state target hstate => takes_addTarget hstate _ _ _ target) _ hnext
  have h := hfirst.bind hrest
  rwa [true_and] at h

theorem takes_addExternal (declared : String × Nat) :
    Takes (addExternal state declared) state (IsPattern declared.1) (externalMoves declared.1) := by
  have h : Takes (addExternal state declared) state (IsPattern declared.1 ∧ True)
      (externalMoves declared.1) :=
    Takes.parse fun pattern =>
      Takes.silent ⟨pattern, some (⟨.usedBy, .may⟩, .every), true⟩ hagree rfl rfl
  rwa [and_true] at h

theorem takes_rules (rules : List String) : Takes (rules.zipIdx.foldlM addRule state) state
    (∀ text ∈ rules, IsPattern text) (rules.flatMap ruleMoves) :=
  Takes.foldlM_zipIdx (fun _ declared h => takes_addRule h declared) rules hagree

theorem takes_relations (relations : List Relation) :
    Takes (relations.zipIdx.foldlM addRelation state) state
      (∀ relation ∈ relations,
        IsPattern relation.pattern ∧ ∀ target ∈ relation.targets, IsPattern target)
      (relations.flatMap relationMoves) :=
  Takes.foldlM_zipIdx (fun _ declared h => takes_addRelation h declared) relations hagree

theorem takes_externals (externals : List String) :
    Takes (externals.zipIdx.foldlM addExternal state) state
      (∀ text ∈ externals, IsPattern text) (externals.flatMap externalMoves) :=
  Takes.foldlM_zipIdx (fun _ declared h => takes_addExternal h declared) externals hagree

end Steps

end Sealing

/-! ### The rules that come out -/

namespace RuleDeclarations

open Sealing

variable {declarations : RuleDeclarations} {rules : RuleSet}

/-- Whether all declared texts are patterns. -/
structure Readable (declarations : RuleDeclarations) : Prop where
  rules : ∀ text ∈ declarations.rules, IsPattern text
  relations : ∀ relation ∈ declarations.relations,
    IsPattern relation.pattern ∧ ∀ target ∈ relation.targets, IsPattern target
  externals : ∀ text ∈ declarations.externals, IsPattern text

/-- The moves of declarations in the order in which they are taken. -/
def moves (declarations : RuleDeclarations) : List Move :=
  declarations.rules.flatMap ruleMoves ++ declarations.relations.flatMap relationMoves
    ++ declarations.externals.flatMap externalMoves

/-- Sealing succeeds if all texts are patterns and no two moves contradict each other, and gives
what the moves make. -/
theorem seal_eq_ok_iff : declarations.seal = .ok rules ↔
    declarations.Readable ∧ Agree (declarations.moves.filterMap Move.edge?) ∧
      rules = ⟨declarations.mode, (takeAll {} declarations.moves).rules,
        declarations.allowIntraPackageCycles⟩ := by
  have hstart : Agree ({} : Sealing).edges := List.Pairwise.nil
  have hall := (takes_rules hstart declarations.rules).bind fun between hbetween =>
    (takes_relations hbetween declarations.relations).bind fun between hbetween =>
      takes_externals hbetween declarations.externals
  rw [← List.append_assoc] at hall
  have hseal : declarations.seal
      = (declarations.rules.zipIdx.foldlM addRule {} >>= fun state =>
          declarations.relations.zipIdx.foldlM addRelation state >>= fun state =>
            declarations.externals.zipIdx.foldlM addExternal state) >>= fun state =>
        .ok ⟨declarations.mode, state.rules, declarations.allowIntraPackageCycles⟩ := by
    simp only [RuleDeclarations.seal, bind_assoc]
    rfl
  rw [hseal, bind_eq_ok_iff]
  refine ⟨?_, ?_⟩
  · rintro ⟨state, hstate, hrules⟩
    obtain ⟨⟨hread, hread', hread''⟩, hagree, rfl⟩ := (hall state).mp hstate
    rw [edges_takeAll] at hagree
    exact ⟨⟨hread, hread', hread''⟩, hagree, (Except.ok.inj hrules).symm⟩
  · rintro ⟨hread, hagree, rfl⟩
    refine ⟨_, (hall _).mpr ⟨⟨hread.rules, hread.relations, hread.externals⟩, ?_, rfl⟩, rfl⟩
    rw [edges_takeAll]
    exact hagree

end RuleDeclarations

/-! ### What a rule holds -/

/-- The targets of a rule with a kind of relation. -/
def Rule.targets (rule : Rule) (kind : RelationKind) : List PackagePattern :=
  (rule.relations kind.direction).get kind.modality

theorem Relations.mem_appendNew {patterns : List PackagePattern} {target q : PackagePattern} :
    q ∈ appendNew patterns target ↔ q ∈ patterns ∨ q = target := by
  unfold appendNew
  by_cases h : patterns.contains target = true
  · rw [if_pos h]
    refine ⟨Or.inl, ?_⟩
    intro hor
    rcases hor with hq | rfl
    · exact hq
    · exact List.contains_iff_mem.mp h
  · rw [if_neg h, List.mem_append, List.mem_singleton]

theorem Relations.get_add (relations : Relations) (modality m : Modality)
    (target : PackagePattern) : (relations.add modality target).get m
      = if modality = m then appendNew (relations.get m) target else relations.get m := by
  cases modality <;> cases m <;> rfl

theorem Rule.targets_relate (rule : Rule) (kind k : RelationKind) (target : PackagePattern) :
    (rule.relate kind target).targets k
      = if kind = k then Relations.appendNew (rule.targets k) target else rule.targets k := by
  obtain ⟨direction, modality⟩ := kind
  obtain ⟨d, m⟩ := k
  cases direction <;> cases d <;>
    simp [Rule.targets, Rule.relate, Rule.relations, Relations.get_add]

theorem Rule.mem_targets_relate {rule : Rule} {kind k : RelationKind} {target q : PackagePattern} :
    q ∈ (rule.relate kind target).targets k ↔
      q ∈ rule.targets k ∨ k = kind ∧ q = target := by
  rw [targets_relate]
  by_cases hkind : kind = k
  · rw [if_pos hkind, Relations.mem_appendNew]
    simp [hkind]
  · rw [if_neg hkind]
    simp [eq_comm, hkind]

namespace Move

variable {move : Move} {rule : Rule}

theorem relate_unchanged (move : Move) (rule : Rule) :
    (move.relate rule).pattern = rule.pattern
      ∧ (move.relate rule).optional = rule.optional := by
  unfold relate
  cases move.related with
  | none => exact ⟨rfl, rfl⟩
  | some related =>
      simp only [Rule.relate]
      split <;> exact ⟨rfl, rfl⟩

theorem mem_targets_relate {kind : RelationKind} {q : PackagePattern} :
    q ∈ (move.relate rule).targets kind ↔
      q ∈ rule.targets kind ∨ move.related = some (kind, q) := by
  unfold relate
  cases move.related with
  | none => simp
  | some related =>
      obtain ⟨k, target⟩ := related
      rw [Rule.mem_targets_relate, Option.some.injEq, Prod.mk.injEq, eq_comm, @eq_comm _ q]

theorem pattern_change (move : Move) (rule : Rule) : (move.change rule).pattern = rule.pattern := by
  rw [← (move.relate_unchanged rule).1]
  unfold change
  split <;> rfl

/-- The mark of an external package leaves the targets as they are. -/
theorem targets_change_eq_relate (move : Move) (rule : Rule) (kind : RelationKind) :
    (move.change rule).targets kind = (move.relate rule).targets kind := by
  unfold change Rule.targets Rule.relations
  split <;> split <;> rfl

theorem mem_targets_change {kind : RelationKind} {q : PackagePattern} :
    q ∈ (move.change rule).targets kind ↔
      q ∈ rule.targets kind ∨ move.related = some (kind, q) := by
  rw [targets_change_eq_relate, mem_targets_relate]

theorem optional_change : (move.change rule).optional = true ↔
    rule.optional = true ∨ move.isExternal = true := by
  rw [← (move.relate_unchanged rule).2]
  unfold change
  by_cases hexternal : move.isExternal = true
  · simp [hexternal]
  · simp [hexternal]

end Move

/-- Rules that hold what some moves say and nothing else. -/
structure IsMadeOf (rules : List Rule) (moves : List Move) : Prop where
  patterns : ∀ pattern, (∃ rule ∈ rules, rule.pattern = pattern) ↔
    ∃ move ∈ moves, move.pattern = pattern
  targets : ∀ rule ∈ rules, ∀ kind q, q ∈ rule.targets kind ↔
    ∃ move ∈ moves, move.pattern = rule.pattern ∧ move.related = some (kind, q)
  optional : ∀ rule ∈ rules, rule.optional = true ↔
    ∃ move ∈ moves, move.pattern = rule.pattern ∧ move.isExternal = true

namespace Sealing

theorem mem_changeRule {rules : List Rule} {pattern : PackagePattern} {change : Rule → Rule}
    {rule : Rule} : rule ∈ changeRule rules pattern change ↔
      rule ∈ rules ∧ rule.pattern ≠ pattern
        ∨ ∃ old, rule = change old ∧ (old ∈ rules ∧ old.pattern = pattern
          ∨ old = { pattern } ∧ ∀ other ∈ rules, other.pattern ≠ pattern) := by
  unfold changeRule
  by_cases hany : rules.any (·.pattern == pattern) = true
  · obtain ⟨found, hfound, hpattern⟩ := List.any_eq_true.mp hany
    have hnot : ¬∀ other ∈ rules, other.pattern ≠ pattern :=
      fun hc => hc found hfound (beq_iff_eq.mp hpattern)
    rw [if_pos hany, List.mem_map]
    simp only [hnot, and_false, or_false]
    refine ⟨?_, ?_⟩
    · rintro ⟨old, hold, rfl⟩
      by_cases hp : old.pattern = pattern
      · exact Or.inr ⟨old, by simp [hp], hold, hp⟩
      · refine Or.inl ?_
        simpa [hp] using hold
    · intro hor
      rcases hor with ⟨hmem, hp⟩ | ⟨old, rfl, hold, hp⟩
      · exact ⟨rule, hmem, by simp [hp]⟩
      · exact ⟨old, hold, by simp [hp]⟩
  · have hall : ∀ other ∈ rules, other.pattern ≠ pattern := by simpa using hany
    rw [if_neg hany, List.mem_append, List.mem_singleton]
    refine ⟨?_, ?_⟩
    · intro hor
      rcases hor with hmem | rfl
      · exact Or.inl ⟨hmem, hall rule hmem⟩
      · exact Or.inr ⟨_, rfl, Or.inr ⟨rfl, hall⟩⟩
    · intro hor
      rcases hor with ⟨hmem, -⟩ | ⟨old, rfl, ⟨hold, hp⟩ | ⟨rfl, -⟩⟩
      · exact Or.inl hmem
      · exact absurd hp (hall old hold)
      · exact Or.inr rfl

end Sealing

namespace IsMadeOf

variable {rules : List Rule} {moves : List Move}

theorem nil : IsMadeOf [] [] := by
  refine ⟨?_, ?_, ?_⟩ <;> simp

/-- What a rule has after one more move, for anything that moves can give to a rule. -/
theorem has_take (h : IsMadeOf rules moves) {Has : Rule → Prop} {Gives : Move → Prop}
    (hchange : ∀ (move : Move) (rule : Rule), Has (move.change rule) ↔ Has rule ∨ Gives move)
    (hfresh : ∀ pattern, ¬Has { pattern })
    (hrules : ∀ rule ∈ rules,
      Has rule ↔ ∃ m ∈ moves, m.pattern = rule.pattern ∧ Gives m) (move : Move) :
    ∀ rule ∈ Sealing.changeRule rules move.pattern move.change,
      Has rule ↔ ∃ m ∈ moves ++ [move], m.pattern = rule.pattern ∧ Gives m := by
  intro rule hrule
  simp only [List.mem_append, List.mem_singleton, or_and_right, exists_or, exists_eq_left]
  rcases Sealing.mem_changeRule.mp hrule with ⟨hmem, hne⟩ | ⟨old, rfl, hold⟩
  · -- The rule of another pattern.
    rw [hrules rule hmem]
    simp [hne.symm]
  · rw [hchange, move.pattern_change]
    rcases hold with ⟨hmem, hp⟩ | ⟨rfl, hnone⟩
    · rw [hrules old hmem]
      simp [hp]
    · -- A new rule has nothing yet, and no earlier move was for it.
      have hnot : ¬∃ m ∈ moves, m.pattern = move.pattern ∧ Gives m := by
        rintro ⟨m, hm, hp, -⟩
        obtain ⟨other, hother, hpattern⟩ := (h.patterns move.pattern).mpr ⟨m, hm, hp⟩
        exact hnone other hother hpattern
      simp [hfresh, hnot]

/-- One more move. -/
theorem take (h : IsMadeOf rules moves) (move : Move) :
    IsMadeOf (Sealing.changeRule rules move.pattern move.change) (moves ++ [move]) := by
  refine ⟨?_, ?_, ?_⟩
  · intro pattern
    simp only [List.mem_append, List.mem_singleton, or_and_right, exists_or, exists_eq_left,
      ← h.patterns]
    refine ⟨?_, ?_⟩
    · rintro ⟨rule, hrule, rfl⟩
      rcases Sealing.mem_changeRule.mp hrule with ⟨hmem, -⟩ | ⟨old, rfl, ⟨hmem, -⟩ | ⟨rfl, -⟩⟩
      · exact Or.inl ⟨rule, hmem, rfl⟩
      · exact Or.inl ⟨old, hmem, (move.pattern_change old).symm⟩
      · exact Or.inr (move.pattern_change { pattern := move.pattern }).symm
    · have hself : ∃ rule ∈ Sealing.changeRule rules move.pattern move.change,
          rule.pattern = move.pattern := by
        by_cases hold : ∃ old ∈ rules, old.pattern = move.pattern
        · obtain ⟨old, hmem, hp⟩ := hold
          exact ⟨_, Sealing.mem_changeRule.mpr (Or.inr ⟨old, rfl, Or.inl ⟨hmem, hp⟩⟩),
            (move.pattern_change old).trans hp⟩
        · have hnone : ∀ other ∈ rules, other.pattern ≠ move.pattern :=
            fun other hother hp => hold ⟨other, hother, hp⟩
          exact ⟨_, Sealing.mem_changeRule.mpr (Or.inr ⟨_, rfl, Or.inr ⟨rfl, hnone⟩⟩),
            move.pattern_change _⟩
      intro hor
      by_cases hp : move.pattern = pattern
      · rw [← hp]
        exact hself
      · rcases hor with ⟨rule, hmem, rfl⟩ | hc
        · exact ⟨rule, Sealing.mem_changeRule.mpr (Or.inl ⟨hmem, fun hc => hp hc.symm⟩), rfl⟩
        · exact absurd hc hp
  · intro rule hrule kind q
    refine has_take h (fun _ _ => Move.mem_targets_change) ?_
      (fun rule hmem => h.targets rule hmem kind q) move rule hrule
    intro pattern
    obtain ⟨direction, modality⟩ := kind
    cases direction <;> cases modality <;> exact List.not_mem_nil
  · refine has_take h (fun _ _ => Move.optional_change) ?_ h.optional move
    intro pattern
    simp

/-- All moves. -/
theorem takeAll (moves : List Move) : IsMadeOf (Sealing.takeAll {} moves).rules moves := by
  have hfold : ∀ (more taken : List Move) (state : Sealing), IsMadeOf state.rules taken →
      IsMadeOf (state.takeAll more).rules (taken ++ more) := by
    intro more
    induction more with
    | nil =>
        intro taken state h
        rw [List.append_nil]
        exact h
    | cons move more ih =>
        intro taken state h
        rw [List.append_cons]
        exact ih _ (state.take move) (h.take move)
  exact hfold moves [] {} nil

end IsMadeOf

end PackageAudit
