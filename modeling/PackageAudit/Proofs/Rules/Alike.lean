/-
Rule sets that say the same.

Two rule sets say the same if each rule of one has a counterpart in the other, with the same
pattern, the same mark and the same targets of each kind.  The order of the rules and of their
targets is left open.  All that the evaluation gathers on its way is a maximum, a minimum, a
set or a count that is compared with 0, so it reports the same for both; and if there is a
dependency that can not be decided it stops at the same one, though perhaps at another rule.

Declarations that are made in another order give rule sets that say the same.
-/
import PackageAudit.Proofs.Rules.Evaluation
import PackageAudit.Proofs.Rules.Sealing

namespace PackageAudit

open Ascending

/-- Rules with the same pattern, mark and targets. -/
structure Rule.Alike (a b : Rule) : Prop where
  pattern : a.pattern = b.pattern
  targets : ∀ kind q, q ∈ a.targets kind ↔ q ∈ b.targets kind
  optional : a.optional = b.optional

namespace Rule.Alike

variable {a b : Rule}

theorem allowing_eq (h : a.Alike b) (direction : Direction) (package : String) :
    (a.relations direction).allowing package = (b.relations direction).allowing package := by
  ext pattern
  exact and_congr_left' (or_congr (h.targets ⟨direction, .may⟩ pattern)
    (h.targets ⟨direction, .must⟩ pattern))

theorem denying_eq (h : a.Alike b) (direction : Direction) (package : String) :
    (a.relations direction).denying package = (b.relations direction).denying package := by
  ext pattern
  exact and_congr_left' (h.targets ⟨direction, .mustNot⟩ pattern)

theorem allowed_eq (h : a.Alike b) (direction : Direction) (package : String) :
    (a.relations direction).allowed package = (b.relations direction).allowed package := by
  rw [← (Relations.isStrongest_allowing _ _).strongest_eq,
    ← (Relations.isStrongest_allowing _ _).strongest_eq, h.allowing_eq]

theorem denied_eq (h : a.Alike b) (direction : Direction) (package : String) :
    (a.relations direction).denied package = (b.relations direction).denied package := by
  rw [← (Relations.isStrongest_denying _ _).strongest_eq,
    ← (Relations.isStrongest_denying _ _).strongest_eq, h.denying_eq]

end Rule.Alike

namespace RuleSet

/-- Rule sets that say the same. -/
structure Alike (a b : RuleSet) : Prop where
  mode : a.mode = b.mode
  forth : ∀ rule ∈ a.rules, ∃ other ∈ b.rules, rule.Alike other
  back : ∀ rule ∈ b.rules, ∃ other ∈ a.rules, rule.Alike other

theorem mem_judges {rules : RuleSet} {owners : List Rule} {p q : String} {judge : Judge} :
    judge ∈ rules.judges owners p q ↔
      owners = [] ∧ judge = ⟨none, rules.reverseAllowed p q, rules.reverseDenied p q⟩
        ∨ ∃ rule ∈ owners, judge = ⟨some rule.pattern,
          Nat.max (rule.uses.allowed q) (rules.reverseAllowed p q),
          Nat.max (rule.uses.denied q) (rules.reverseDenied p q)⟩ := by
  unfold judges
  cases owners with
  | nil => simp
  | cons first rest =>
      rw [List.mem_map]
      simp [eq_comm]

namespace Alike

variable {a b : RuleSet} {model : Model} {p q : String}

theorem symm (h : a.Alike b) : b.Alike a := ⟨h.mode.symm, h.back, h.forth⟩

/-! ### Owners and judges -/

theorem exists_owner (h : a.Alike b) {rule : Rule} (howner : rule ∈ a.owners p) :
    ∃ other ∈ b.owners p, rule.Alike other := by
  obtain ⟨hrule, hcovers⟩ := mem_owners.mp howner
  obtain ⟨other, hother, halike⟩ := h.forth rule hrule
  refine ⟨other, mem_owners.mpr ⟨hother, ?_⟩, halike⟩
  rw [← halike.pattern]
  exact hcovers

theorem owners_eq_nil (h : a.Alike b) (hnil : a.owners p = []) : b.owners p = [] := by
  refine List.eq_nil_iff_forall_not_mem.mpr ?_
  intro rule hrule
  obtain ⟨other, hother, -⟩ := h.symm.exists_owner hrule
  rw [hnil] at hother
  exact List.not_mem_nil hother

theorem isSelf (h : a.Alike b) (hself : a.IsSelf p q) : b.IsSelf p q := by
  obtain ⟨rule, howns, hne, hcovers⟩ := hself
  obtain ⟨other, hother, halike⟩ := h.exists_owner (mem_owners.mpr howns)
  rw [halike.pattern] at hne hcovers
  exact ⟨other, mem_owners.mp hother, hne, hcovers⟩

theorem usersAllowed_subset (h : a.Alike b) (p q : String) :
    a.usersAllowed p q ⊆ b.usersAllowed p q := by
  intro pattern hpattern
  obtain ⟨rule, howns, hallowing⟩ := hpattern
  obtain ⟨other, hother, halike⟩ := h.exists_owner (mem_owners.mpr howns)
  have heq := halike.allowing_eq .usedBy p
  exact ⟨other, mem_owners.mp hother, heq ▸ hallowing⟩

theorem usersDenied_subset (h : a.Alike b) (p q : String) :
    a.usersDenied p q ⊆ b.usersDenied p q := by
  intro pattern hpattern
  obtain ⟨rule, howns, hdenying⟩ := hpattern
  obtain ⟨other, hother, halike⟩ := h.exists_owner (mem_owners.mpr howns)
  have heq := halike.denying_eq .usedBy p
  exact ⟨other, mem_owners.mp hother, heq ▸ hdenying⟩

theorem reverseAllowed_eq (h : a.Alike b) (p q : String) :
    a.reverseAllowed p q = b.reverseAllowed p q := by
  rw [← strongest_usersAllowed, ← strongest_usersAllowed,
    (h.usersAllowed_subset p q).antisymm (h.symm.usersAllowed_subset p q)]

theorem reverseDenied_eq (h : a.Alike b) (p q : String) :
    a.reverseDenied p q = b.reverseDenied p q := by
  rw [← strongest_usersDenied, ← strongest_usersDenied,
    (h.usersDenied_subset p q).antisymm (h.symm.usersDenied_subset p q)]

theorem mem_judges {owned : String} {judge : Judge} (h : a.Alike b)
    (hjudge : judge ∈ a.judges (a.owners owned) p q) :
    judge ∈ b.judges (b.owners owned) p q := by
  rw [RuleSet.mem_judges, ← h.reverseAllowed_eq, ← h.reverseDenied_eq]
  rcases RuleSet.mem_judges.mp hjudge with ⟨hnil, hjudge⟩ | ⟨rule, hrule, hjudge⟩
  · exact Or.inl ⟨h.owners_eq_nil hnil, hjudge⟩
  · obtain ⟨other, hother, halike⟩ := h.exists_owner hrule
    refine Or.inr ⟨other, hother, ?_⟩
    rw [hjudge, halike.pattern]
    show Judge.mk _ (Nat.max ((rule.relations .uses).allowed q) _)
      (Nat.max ((rule.relations .uses).denied q) _) = _
    rw [halike.allowed_eq, halike.denied_eq]
    rfl

/-! ### Hearings -/

theorem mem_edgeHearings (h : a.Alike b) {entry : PackageId × Package} {target : PackageId}
    {hearing : PackageEdge × Judge} (hmem : hearing ∈ a.edgeHearings model entry target) :
    hearing ∈ b.edgeHearings model entry target := by
  obtain ⟨edge, judge⟩ := hearing
  obtain ⟨hedge, hself, hjudge⟩ := RuleSet.mem_edgeHearings.mp hmem
  refine RuleSet.mem_edgeHearings.mpr ⟨hedge, ?_, h.mem_judges hjudge⟩
  intro hc
  exact hself (isSelfReference_iff.mpr (h.symm.isSelf (isSelfReference_iff.mp hc)))

theorem mem_hearings (h : a.Alike b) {hearing : PackageEdge × Judge}
    (hmem : hearing ∈ a.hearings model) : hearing ∈ b.hearings model := by
  obtain ⟨entry, hentry, hmem⟩ := List.mem_flatMap.mp hmem
  obtain ⟨target, htarget, hmem⟩ := List.mem_flatMap.mp hmem
  exact List.mem_flatMap.mpr
    ⟨entry, hentry, List.mem_flatMap.mpr ⟨target, htarget, h.mem_edgeHearings hmem⟩⟩

/-- The first hit of a search in parts is found in the same place if it is so in each part. -/
theorem map_find?_flatMap {α β γ : Type} {items : List α} {parts others : α → List β}
    {hit : β → Bool} {place : β → γ}
    (h : ∀ item ∈ items, ((parts item).find? hit).map place = ((others item).find? hit).map place) :
    ((items.flatMap parts).find? hit).map place = ((items.flatMap others).find? hit).map place := by
  induction items with
  | nil => rfl
  | cons item rest ih =>
      obtain ⟨hitem, hrest⟩ := List.forall_mem_cons.mp h
      simp only [List.flatMap_cons, List.find?_append, Option.map_or]
      rw [hitem, ih hrest]

/-- The judges of one dependency all stand in the same place. -/
theorem find?_edgeHearings_eq (h : a.Alike b) (entry : PackageId × Package) (target : PackageId) :
    ((a.edgeHearings model entry target).find? (·.2.isAmbiguous)).map Prod.fst
      = ((b.edgeHearings model entry target).find? (·.2.isAmbiguous)).map Prod.fst := by
  cases hfind : (a.edgeHearings model entry target).find? (·.2.isAmbiguous) with
  | none =>
      have hnone : (b.edgeHearings model entry target).find? (·.2.isAmbiguous) = none := by
        refine List.find?_eq_none.mpr fun hearing hmem => ?_
        exact List.find?_eq_none.mp hfind hearing (h.symm.mem_edgeHearings hmem)
      rw [hnone]
  | some hearing =>
      have hmem := h.mem_edgeHearings (List.mem_of_find?_eq_some hfind)
      have hambiguous := (List.find?_eq_some_iff_append.mp hfind).1
      cases hother : (b.edgeHearings model entry target).find? (·.2.isAmbiguous) with
      | none => exact absurd hambiguous (List.find?_eq_none.mp hother hearing hmem)
      | some other =>
          have hfirst := (RuleSet.mem_edgeHearings.mp hmem).1
          have hsecond := (RuleSet.mem_edgeHearings.mp (List.mem_of_find?_eq_some hother)).1
          exact congrArg some (hfirst.trans hsecond.symm)

theorem find?_hearings_eq (h : a.Alike b) (model : Model) :
    ((a.hearings model).find? (·.2.isAmbiguous)).map Prod.fst
      = ((b.hearings model).find? (·.2.isAmbiguous)).map Prod.fst :=
  map_find?_flatMap fun entry _ => map_find?_flatMap fun target _ =>
    h.find?_edgeHearings_eq entry target

/-! ### Reports -/

theorem disallowed_eq (h : a.Alike b) {judgements judgements' : Judgements}
    (hheard : judgements.Heard a.mode (a.hearings model))
    (hheard' : judgements'.Heard b.mode (b.hearings model)) :
    judgements.disallowed = judgements'.disallowed := by
  have hmem : ∀ hearing, hearing ∈ a.hearings model ↔ hearing ∈ b.hearings model :=
    fun hearing => ⟨h.mem_hearings, h.symm.mem_hearings⟩
  refine hheard.isAscending_disallowed.ext hheard'.isAscending_disallowed fun edge => ?_
  rw [hheard.mem_disallowed, hheard'.mem_disallowed, h.mode]
  simp only [hmem]

theorem mem_required (h : a.Alike b) {edge : PackageEdge} (hmem : edge ∈ a.required model) :
    edge ∈ b.required model := by
  obtain ⟨rule, hrule, hmem⟩ := List.mem_flatMap.mp hmem
  obtain ⟨other, hother, halike⟩ := h.forth rule hrule
  refine List.mem_flatMap.mpr ⟨other, hother, ?_⟩
  have huses : ∀ target, target ∈ rule.uses.must ↔ target ∈ other.uses.must :=
    halike.targets ⟨.uses, .must⟩
  have husers : ∀ source, source ∈ rule.usedBy.must ↔ source ∈ other.usedBy.must :=
    halike.targets ⟨.usedBy, .must⟩
  simp only [List.mem_append, List.mem_flatMap, huses, husers, halike.pattern] at hmem ⊢
  exact hmem

theorem missing_eq (h : a.Alike b) (model : Model) : a.missing model = b.missing model := by
  unfold missing
  refine (isAscending_ofList _).ext (isAscending_ofList _) fun edge => ?_
  rw [mem_ofList, mem_ofList, List.mem_filter, List.mem_filter]
  exact and_congr_left' ⟨h.mem_required, h.symm.mem_required⟩

theorem mem_declarations (h : a.Alike b) {declaration : UnusedRule × PackagePattern}
    (hmem : declaration ∈ a.declarations) : declaration ∈ b.declarations := by
  obtain ⟨rule, hrule, hmem⟩ := List.mem_flatMap.mp hmem
  obtain ⟨hrule, hoptional⟩ := List.mem_filter.mp hrule
  obtain ⟨other, hother, halike⟩ := h.forth rule hrule
  rw [halike.optional] at hoptional
  refine List.mem_flatMap.mpr ⟨other, List.mem_filter.mpr ⟨hother, hoptional⟩, ?_⟩
  have htargets : ∀ (kind : RelationKind) (q : PackagePattern),
      q ∈ (rule.relations kind.direction).get kind.modality ↔
      q ∈ (other.relations kind.direction).get kind.modality := halike.targets
  simp only [declaredPatterns, List.mem_map, List.mem_cons, List.mem_flatMap, halike.pattern,
    htargets] at hmem ⊢
  exact hmem

theorem unused_eq (h : a.Alike b) (model : Model) : a.unused model = b.unused model := by
  have hmem : ∀ declaration, declaration ∈ a.declarations ↔ declaration ∈ b.declarations :=
    fun declaration => ⟨h.mem_declarations, h.symm.mem_declarations⟩
  refine (isAscending_unused a model).ext (isAscending_unused b model) fun unused => ?_
  rw [mem_unused, mem_unused]
  simp only [hmem]

theorem undefined_eq (h : a.Alike b) (model : Model) : a.undefined model = b.undefined model := by
  have hempty : ∀ package : String,
      (a.owners package).isEmpty = (b.owners package).isEmpty := by
    intro package
    rw [Bool.eq_iff_iff, List.isEmpty_iff, List.isEmpty_iff]
    exact ⟨h.owners_eq_nil, h.symm.owners_eq_nil⟩
  unfold undefined
  simp only [hempty]

/-- Rule sets that say the same are evaluated alike: both give the same report, or both stop at the
same dependency. -/
theorem evaluate (h : a.Alike b) (model : Model) :
    (∃ report, a.evaluate model = .ok report ∧ b.evaluate model = .ok report)
      ∨ ∃ rule rule' source target, a.evaluate model = .error (.ambiguous rule source target)
        ∧ b.evaluate model = .error (.ambiguous rule' source target) := by
  have hplace := h.find?_hearings_eq model
  cases hfind : (a.hearings model).find? (·.2.isAmbiguous) with
  | none =>
      rw [hfind, Option.map_none, eq_comm, Option.map_eq_none_iff] at hplace
      obtain ⟨judgements, hok, hheard⟩ := judgements_of_find?_none hfind
      obtain ⟨judgements', hok', hheard'⟩ := judgements_of_find?_none hplace
      refine Or.inl ⟨_, evaluate_of_judgements_ok hok, ?_⟩
      rw [evaluate_of_judgements_ok hok', h.disallowed_eq hheard hheard', h.missing_eq,
        h.unused_eq, h.undefined_eq]
  | some hearing =>
      rw [hfind, Option.map_some, eq_comm, Option.map_eq_some_iff] at hplace
      obtain ⟨other, hother, hedge⟩ := hplace
      have hstop := evaluate_of_judgements_error (judgements_of_find?_some hother)
      rw [hedge] at hstop
      exact Or.inr ⟨_, _, _, _, evaluate_of_judgements_error (judgements_of_find?_some hfind),
        hstop⟩

end Alike

end RuleSet

/-! ### Declarations in another order -/

/-- Rules that are made of the same moves are alike. -/
theorem RuleSet.alike_of_isMadeOf {a b : RuleSet} {moves moves' : List Move}
    (hmode : a.mode = b.mode) (ha : IsMadeOf a.rules moves) (hb : IsMadeOf b.rules moves')
    (hmoves : ∀ move, move ∈ moves ↔ move ∈ moves') : a.Alike b := by
  have hforth : ∀ {rules rules' : List Rule} {moves moves' : List Move}, IsMadeOf rules moves →
      IsMadeOf rules' moves' → (∀ move, move ∈ moves ↔ move ∈ moves') →
      ∀ rule ∈ rules, ∃ other ∈ rules', rule.Alike other := by
    intro rules rules' moves moves' h h' hmoves rule hrule
    obtain ⟨move, hmove, hpattern⟩ := (h.patterns rule.pattern).mp ⟨rule, hrule, rfl⟩
    obtain ⟨other, hother, hsame⟩ :=
      (h'.patterns rule.pattern).mpr ⟨move, (hmoves move).mp hmove, hpattern⟩
    refine ⟨other, hother, hsame.symm, ?_, ?_⟩
    · intro kind q
      rw [h.targets rule hrule, h'.targets other hother, hsame]
      simp only [hmoves]
    · rw [Bool.eq_iff_iff, h.optional rule hrule, h'.optional other hother, hsame]
      simp only [hmoves]
  exact ⟨hmode, hforth ha hb hmoves, hforth hb ha fun move => (hmoves move).symm⟩

/-- One declaration. -/
inductive Declaration where
  | rule (text : String)
  | relation (relation : Relation)
  | external (text : String)
  deriving DecidableEq, Repr

namespace Declaration

/-- The rule that is declared, if it is one. -/
def rules : Declaration → List String
  | .rule text => [text]
  | _ => []

/-- The relation that is declared, if it is one. -/
def relations : Declaration → List Relation
  | .relation declared => [declared]
  | _ => []

/-- The external package that is declared, if it is one. -/
def externals : Declaration → List String
  | .external text => [text]
  | _ => []

end Declaration

namespace RuleDeclarations

/-- The declarations with one more. -/
def add (declarations : RuleDeclarations) (step : Declaration) : RuleDeclarations :=
  { declarations with
    rules := declarations.rules ++ step.rules
    relations := declarations.relations ++ step.relations
    externals := declarations.externals ++ step.externals }

/-- The declarations with some more, one after the other. -/
def addAll (declarations : RuleDeclarations) (steps : List Declaration) : RuleDeclarations :=
  steps.foldl add declarations

/-- Declarations that differ in their order at most. -/
structure Reorders (a b : RuleDeclarations) : Prop where
  mode : a.mode = b.mode
  rules : a.rules.Perm b.rules
  relations : a.relations.Perm b.relations
  externals : a.externals.Perm b.externals

namespace Reorders

variable {a b c : RuleDeclarations}

theorem symm (h : a.Reorders b) : b.Reorders a :=
  ⟨h.mode.symm, h.rules.symm, h.relations.symm, h.externals.symm⟩

theorem trans (h : a.Reorders b) (h' : b.Reorders c) : a.Reorders c :=
  ⟨h.mode.trans h'.mode, h.rules.trans h'.rules, h.relations.trans h'.relations,
    h.externals.trans h'.externals⟩

theorem add (h : a.Reorders b) (step : Declaration) : (a.add step).Reorders (b.add step) :=
  ⟨h.mode, h.rules.append_right _, h.relations.append_right _, h.externals.append_right _⟩

theorem addAll (h : a.Reorders b) (steps : List Declaration) :
    (a.addAll steps).Reorders (b.addAll steps) := by
  induction steps generalizing a b with
  | nil => exact h
  | cons step rest ih => exact ih (h.add step)

/-- Two declarations in a row may change places. -/
theorem swap (a : RuleDeclarations) (step step' : Declaration) :
    ((a.add step).add step').Reorders ((a.add step').add step) := by
  have hswap : ∀ {α : Type} (items new new' : List α),
      (items ++ new ++ new').Perm (items ++ new' ++ new) := by
    intro α items new new'
    rw [List.append_assoc, List.append_assoc]
    exact List.perm_append_comm.append_left items
  exact ⟨rfl, hswap _ _ _, hswap _ _ _, hswap _ _ _⟩

theorem of_perm {steps steps' : List Declaration} (hperm : steps.Perm steps')
    (a : RuleDeclarations) : (a.addAll steps).Reorders (a.addAll steps') := by
  induction hperm generalizing a with
  | nil => exact ⟨rfl, .refl _, .refl _, .refl _⟩
  | cons step _ ih => exact ih (a.add step)
  | swap step step' rest => exact (swap a step' step).addAll rest
  | trans _ _ ih ih' => exact (ih a).trans (ih' a)

theorem moves_perm (h : a.Reorders b) : a.moves.Perm b.moves :=
  ((h.rules.flatMap_right _).append (h.relations.flatMap_right _)).append
    (h.externals.flatMap_right _)

theorem readable (h : a.Reorders b) (hread : a.Readable) : b.Readable where
  rules text hmem := hread.rules text (h.rules.mem_iff.mpr hmem)
  relations relation hmem := hread.relations relation (h.relations.mem_iff.mpr hmem)
  externals text hmem := hread.externals text (h.externals.mem_iff.mpr hmem)

/-- What can be sealed can be sealed in any order. -/
theorem exists_seal (h : a.Reorders b) (hseal : ∃ rules, a.seal = .ok rules) :
    ∃ rules, b.seal = .ok rules := by
  obtain ⟨rules, hseal⟩ := hseal
  obtain ⟨hread, hagree, -⟩ := seal_eq_ok_iff.mp hseal
  exact ⟨_, seal_eq_ok_iff.mpr
    ⟨h.readable hread, hagree.of_perm (h.moves_perm.filterMap _), rfl⟩⟩

theorem alike (h : a.Reorders b) {rules rules' : RuleSet} (hseal : a.seal = .ok rules)
    (hseal' : b.seal = .ok rules') : rules.Alike rules' := by
  obtain ⟨-, -, rfl⟩ := seal_eq_ok_iff.mp hseal
  obtain ⟨-, -, rfl⟩ := seal_eq_ok_iff.mp hseal'
  exact RuleSet.alike_of_isMadeOf h.mode (IsMadeOf.takeAll _) (IsMadeOf.takeAll _)
    fun move => h.moves_perm.mem_iff

end Reorders

/-- **The order of declarations does not matter.**  Sealing succeeds in every order or in none, and
the sealed rules are evaluated alike on every model: with the same report, or with a failure at the
same dependency. -/
theorem seal_reordered (declarations : RuleDeclarations) {steps steps' : List Declaration}
    (h : steps.Perm steps') :
    ((∃ rules, (declarations.addAll steps).seal = .ok rules) ↔
      ∃ rules, (declarations.addAll steps').seal = .ok rules) ∧
    ∀ rules rules', (declarations.addAll steps).seal = .ok rules →
      (declarations.addAll steps').seal = .ok rules' → ∀ model,
        (∃ report, rules.evaluate model = .ok report ∧ rules'.evaluate model = .ok report)
          ∨ ∃ rule rule' source target,
            rules.evaluate model = .error (.ambiguous rule source target)
              ∧ rules'.evaluate model = .error (.ambiguous rule' source target) := by
  have hreorders := Reorders.of_perm h declarations
  refine ⟨⟨hreorders.exists_seal, hreorders.symm.exists_seal⟩, ?_⟩
  intro rules rules' hseal hseal' model
  exact (hreorders.alike hseal hseal').evaluate model

/-- Relations of two patterns, one of which is external as well, and a rule of its own. -/
def mixed : List Declaration :=
  [.relation ⟨"lib", ⟨.usedBy, .mustNot⟩, ["app", "ui"]⟩, .external "lib",
    .relation ⟨" app ", ⟨.uses, .may⟩, ["ui", "app"]⟩, .rule "ui"]

/-- In reverse order the rules are in another order, and they say the same. -/
theorem mixed_reordered : ∃ rules rules',
    (addAll { mode := .denyByDefault } mixed).seal = .ok rules
      ∧ (addAll { mode := .denyByDefault } mixed.reverse).seal = .ok rules'
      ∧ rules ≠ rules'
      ∧ ∀ model, (∃ report, rules.evaluate model = .ok report ∧ rules'.evaluate model = .ok report)
          ∨ ∃ rule rule' source target,
            rules.evaluate model = .error (.ambiguous rule source target)
              ∧ rules'.evaluate model = .error (.ambiguous rule' source target) := by
  have hseal : (addAll { mode := .denyByDefault } mixed).seal = .ok ⟨.denyByDefault,
      [{ pattern := .exact "ui" },
        { pattern := .exact "lib",
          usedBy := { may := [.every], mustNot := [.exact "app", .exact "ui"] }, optional := true },
        { pattern := .exact "app", uses := { may := [.exact "ui", .exact "app"] } }], false⟩ := by
    decide +kernel
  have hseal' : (addAll { mode := .denyByDefault } mixed.reverse).seal = .ok ⟨.denyByDefault,
      [{ pattern := .exact "ui" },
        { pattern := .exact "app", uses := { may := [.exact "ui", .exact "app"] } },
        { pattern := .exact "lib",
          usedBy := { may := [.every], mustNot := [.exact "app", .exact "ui"] },
          optional := true }], false⟩ := by
    decide +kernel
  exact ⟨_, _, hseal, hseal', by decide,
    (seal_reordered _ mixed.reverse_perm.symm).2 _ _ hseal hseal'⟩

end RuleDeclarations

end PackageAudit
