/-
What the evaluation of rules reports.

The evaluation works on references and keeps tables; its result is the verdict on each
dependency by name.  It fails at the first dependency that can not be decided, in the order of
the names, and otherwise reports each disallowed and each missing dependency once, in the same
order.
-/
import PackageAudit.Proofs.Rules.Judgements
import PackageAudit.Proofs.Rules.Verdict
import PackageAudit.Proofs.Usage

namespace PackageAudit

open Ascending

/-- Whether an edge leads from one of two named packages to the other. -/
def PackageEdge.IsBetween (edge : PackageEdge) (model : Model) (p q : String) : Prop :=
  model.packageId? p = some edge.source ∧ model.packageId? q = some edge.target

namespace RuleSet

variable {rules : RuleSet} {model : Model} {edge : PackageEdge} {judge : Judge} {p q : String}

/-! ### Hearings by name -/

/-- The names of the packages that an edge is between. -/
theorem names_of_isBetween (h : model.WellFormed) (hidx : model.Indexed)
    (hedge : edge.IsBetween model p q) :
    model.packageName edge.source = p ∧ model.packageName edge.target = q :=
  ⟨Model.packageName_of_packageId? h hidx hedge.1, Model.packageName_of_packageId? h hidx hedge.2⟩

theorem isBetween_inj (h : model.WellFormed) (hidx : model.Indexed) {p' q' : String}
    (hedge : edge.IsBetween model p q) (hedge' : edge.IsBetween model p' q') :
    p = p' ∧ q = q' := by
  obtain ⟨hp, hq⟩ := names_of_isBetween h hidx hedge
  obtain ⟨hp', hq'⟩ := names_of_isBetween h hidx hedge'
  exact ⟨hp.symm.trans hp', hq.symm.trans hq'⟩

/-- Edges are in the order of the names that they are between. -/
theorem compare_isBetween (h : model.WellFormed) (hidx : model.Indexed) {e f : PackageEdge}
    {p' q' : String} (he : e.IsBetween model p q) (hf : f.IsBetween model p' q') :
    compare e f = .lt ↔ p < p' ∨ p = p' ∧ q < q' := by
  have hsource : e.source = f.source ↔ p = p' := by
    refine ⟨?_, ?_⟩
    · intro heq
      have hname := Model.packageName_of_packageId? h hidx he.1
      rw [heq, Model.packageName_of_packageId? h hidx hf.1] at hname
      exact hname.symm
    · intro heq
      obtain rfl := heq
      exact Option.some.inj (he.1.symm.trans hf.1)
  rw [PackageEdge.compare_lt, hsource, Model.compare_packageId? h hidx he.1 hf.1,
    Model.compare_packageId? h hidx he.2 hf.2]

theorem mem_hearings (h : model.WellFormed) (hidx : model.Indexed) :
    (edge, judge) ∈ rules.hearings model ↔ ∃ p q, edge.IsBetween model p q
      ∧ rules.Judged model p q ∧ judge ∈ rules.judges (rules.owners p) p q := by
  simp only [hearings, List.mem_flatMap, Prod.exists, mem_edgeHearings]
  refine ⟨?_, ?_⟩
  · rintro ⟨source, package, hentry, target, htarget, rfl, hself, hjudge⟩
    have hpackage := (Model.mem_packageList hidx).mp hentry
    have hsource := (Model.packageId?_eq_some_iff h hidx).mpr ⟨package, hpackage, rfl⟩
    have hused := Model.packageId?_of_mem_uses h hidx (Array.mem_of_getElem? hpackage)
      ((Model.mem_uses hpackage).mp htarget)
    rw [Model.packageName_eq hpackage] at hjudge
    refine ⟨package.name, model.packageName target, ⟨hsource, hused⟩, ⟨?_, ?_⟩, hjudge⟩
    · exact (Model.uses_iff h hidx).mpr ⟨source, target, hsource, hused, htarget⟩
    · exact fun hc => hself (isSelfReference_iff.mpr hc)
  · rintro ⟨p, q, hedge, ⟨huses, hself⟩, hjudge⟩
    obtain ⟨source, target, hp, hq, htarget⟩ := (Model.uses_iff h hidx).mp huses
    obtain ⟨package, hpackage, rfl⟩ := (Model.packageId?_eq_some_iff h hidx).mp hp
    have hname := Model.packageName_of_packageId? h hidx hq
    refine ⟨source, package, (Model.mem_packageList hidx).mpr hpackage, target, htarget, ?_, ?_, ?_⟩
    · cases edge
      rw [PackageEdge.mk.injEq]
      exact ⟨Option.some.inj (hedge.1.symm.trans hp), Option.some.inj (hedge.2.symm.trans hq)⟩
    · rw [hname]
      exact fun hc => hself (isSelfReference_iff.mp hc)
    · rw [hname, Model.packageName_eq hpackage]
      exact hjudge

/-- Dependencies are heard in order. -/
theorem hearings_sorted (rules : RuleSet) (h : model.WellFormed) (hidx : model.Indexed) :
    (rules.hearings model).Pairwise fun a b => compare a.1 b.1 = .lt ∨ a.1 = b.1 := by
  refine List.pairwise_flatMap.mpr ⟨?_, ?_⟩
  · intro entry hentry
    obtain ⟨source, package⟩ := entry
    have hpackage := (Model.mem_packageList hidx).mp hentry
    refine List.pairwise_flatMap.mpr ⟨?_, ?_⟩
    · intro target _
      refine List.pairwise_of_forall_mem_list ?_
      intro a ha b hb
      exact Or.inr ((mem_edgeHearings.mp ha).1.trans (mem_edgeHearings.mp hb).1.symm)
    · rw [Model.uses, hpackage]
      refine (h.uses_ascending package (Array.mem_of_getElem? hpackage)).imp ?_
      intro s t hlt a ha b hb
      rw [(mem_edgeHearings.mp ha).1, (mem_edgeHearings.mp hb).1]
      exact Or.inl (PackageEdge.compare_lt.mpr (Or.inr ⟨rfl, hlt⟩))
  · refine (Model.packageList_sorted hidx).imp ?_
    intro entry other hlt a ha b hb
    obtain ⟨s, -, hs⟩ := List.mem_flatMap.mp ha
    obtain ⟨t, -, ht⟩ := List.mem_flatMap.mp hb
    rw [(mem_edgeHearings.mp hs).1, (mem_edgeHearings.mp ht).1]
    exact Or.inl (PackageEdge.compare_lt.mpr (Or.inl hlt))

/-! ### Disallowed dependencies -/

/-- The opinions on a dependency that is judged are those that are heard of it. -/
theorem holds_iff_heard (h : model.WellFormed) (hidx : model.Indexed)
    (hedge : edge.IsBetween model p q) (hjudged : rules.Judged model p q) {opinion : Opinion} :
    rules.Holds p q opinion ↔
      ∃ judge, (edge, judge) ∈ rules.hearings model ∧ judge.opinion = opinion := by
  rw [holds_iff]
  refine exists_congr fun judge => and_congr_left fun _ => ?_
  rw [mem_hearings h hidx]
  refine ⟨?_, ?_⟩
  · exact fun hjudge => ⟨p, q, hedge, hjudged, hjudge⟩
  · rintro ⟨p', q', hedge', -, hjudge⟩
    obtain ⟨rfl, rfl⟩ := isBetween_inj h hidx hedge hedge'
    exact hjudge

theorem mem_disallowed (h : model.WellFormed) (hidx : model.Indexed) {judgements : Judgements}
    (hheard : Judgements.Heard rules.mode (rules.hearings model) judgements) :
    edge ∈ judgements.disallowed ↔
      ∃ p q, edge.IsBetween model p q ∧ rules.IsDisallowed model p q := by
  rw [hheard.mem_disallowed]
  refine ⟨?_, ?_⟩
  · rintro ⟨⟨judge, hjudge, hdenies⟩, hall⟩
    obtain ⟨p, q, hedge, hjudged, -⟩ := (mem_hearings h hidx).mp hjudge
    have hholds : ∀ opinion, rules.Holds p q opinion ↔ _ :=
      fun _ => holds_iff_heard h hidx hedge hjudged
    refine ⟨p, q, hedge, hjudged, ⟨judge.opinion, ?_, Judge.denies_iff.mp hdenies⟩, ?_⟩
    · exact (hholds _).mpr ⟨judge, hjudge, rfl⟩
    · intro o ho hallows o' ho' hdenies'
      obtain ⟨j, hj, rfl⟩ := (hholds o).mp ho
      obtain ⟨k, hk, rfl⟩ := (hholds o').mp ho'
      exact hall j hj (Judge.allows_iff.mpr hallows) k hk (Judge.denies_iff.mpr hdenies')
  · rintro ⟨p, q, hedge, hjudged, ⟨opinion, hopinion, hdenies⟩, hall⟩
    have hholds : ∀ opinion, rules.Holds p q opinion ↔ _ :=
      fun _ => holds_iff_heard h hidx hedge hjudged
    obtain ⟨judge, hjudge, rfl⟩ := (hholds opinion).mp hopinion
    refine ⟨⟨judge, hjudge, Judge.denies_iff.mpr hdenies⟩, ?_⟩
    intro j hj hallows k hk hdenies'
    exact hall _ ((hholds _).mpr ⟨j, hj, rfl⟩) (Judge.allows_iff.mp hallows) _
      ((hholds _).mpr ⟨k, hk, rfl⟩) (Judge.denies_iff.mp hdenies')

/-! ### Missing dependencies -/

theorem mem_matching (h : model.WellFormed) (hidx : model.Indexed) {pattern : PackagePattern}
    {id : PackageId} : id ∈ matching model pattern ↔
      ∃ name, model.packageId? name = some id ∧ pattern.covers name = true := by
  simp only [matching, List.mem_map, List.mem_filter, Prod.exists, Model.mem_packageList hidx,
    Model.packageId?_eq_some_iff h hidx]
  refine ⟨?_, ?_⟩
  · rintro ⟨_, package, ⟨hpackage, hcovers⟩, rfl⟩
    exact ⟨package.name, ⟨package, hpackage, rfl⟩, hcovers⟩
  · rintro ⟨_, ⟨package, hpackage, rfl⟩, hcovers⟩
    exact ⟨id, package, ⟨hpackage, hcovers⟩, rfl⟩

theorem mem_required (h : model.WellFormed) (hidx : model.Indexed) :
    edge ∈ rules.required model ↔
      ∃ p q, edge.IsBetween model p q ∧ rules.IsRequired p q := by
  simp only [required, List.mem_flatMap, List.mem_append, List.mem_map, mem_matching h hidx]
  refine ⟨?_, ?_⟩
  · rintro ⟨rule, hrule, huses | husers⟩
    · obtain ⟨target, htarget, s, ⟨p, hp, hcp⟩, t, ⟨q, hq, hcq⟩, rfl⟩ := huses
      exact ⟨p, q, ⟨hp, hq⟩, rule, hrule, Or.inl ⟨hcp, target, htarget, hcq⟩⟩
    · obtain ⟨source, hsource, s, ⟨p, hp, hcp⟩, t, ⟨q, hq, hcq⟩, rfl⟩ := husers
      exact ⟨p, q, ⟨hp, hq⟩, rule, hrule, Or.inr ⟨hcq, source, hsource, hcp⟩⟩
  · rintro ⟨p, q, ⟨hp, hq⟩, rule, hrule, huses | husers⟩
    · obtain ⟨hcp, target, htarget, hcq⟩ := huses
      exact ⟨rule, hrule, Or.inl ⟨target, htarget, _, ⟨p, hp, hcp⟩, _, ⟨q, hq, hcq⟩, rfl⟩⟩
    · obtain ⟨hcq, source, hsource, hcp⟩ := husers
      exact ⟨rule, hrule, Or.inr ⟨source, hsource, _, ⟨p, hp, hcp⟩, _, ⟨q, hq, hcq⟩, rfl⟩⟩

theorem mem_missing (h : model.WellFormed) (hidx : model.Indexed) :
    edge ∈ rules.missing model ↔ ∃ p q, edge.IsBetween model p q ∧ rules.IsMissing model p q := by
  have huses : ∀ {p q}, edge.IsBetween model p q →
      (edge.target ∈ model.uses edge.source ↔ model.Uses p q) := by
    intro p q hedge
    rw [Model.uses_iff h hidx]
    refine ⟨?_, ?_⟩
    · exact fun hmem => ⟨_, _, hedge.1, hedge.2, hmem⟩
    · rintro ⟨source, target, hp, hq, hmem⟩
      obtain rfl := Option.some.inj (hp.symm.trans hedge.1)
      obtain rfl := Option.some.inj (hq.symm.trans hedge.2)
      exact hmem
  have hne : ∀ {p q}, edge.IsBetween model p q → (edge.source = edge.target ↔ p = q) := by
    intro p q hedge
    obtain ⟨hp, hq⟩ := names_of_isBetween h hidx hedge
    refine ⟨?_, ?_⟩
    · intro heq
      rw [← hp, ← hq, heq]
    · intro heq
      obtain rfl := heq
      exact Option.some.inj (hedge.1.symm.trans hedge.2)
  simp only [missing, mem_ofList, List.mem_filter, mem_required h hidx, Bool.and_eq_true,
    decide_eq_true_eq, Bool.not_eq_true', List.contains_eq_mem, decide_eq_false_iff_not]
  refine ⟨?_, ?_⟩
  · rintro ⟨⟨p, q, hedge, hrequired⟩, hdistinct, hunused⟩
    refine ⟨p, q, hedge, ?_, ?_, fun hc => hdistinct ((hne hedge).mpr hc), hrequired,
      fun hc => hunused ((huses hedge).mpr hc)⟩
    · exact (Model.mem_names_iff h hidx).mpr ⟨_, hedge.1⟩
    · exact (Model.mem_names_iff h hidx).mpr ⟨_, hedge.2⟩
  · rintro ⟨p, q, hedge, -, -, hdistinct, hrequired, hunused⟩
    exact ⟨⟨p, q, hedge, hrequired⟩, fun hc => hdistinct ((hne hedge).mp hc),
      fun hc => hunused ((huses hedge).mp hc)⟩

/-! ### Violations -/

theorem mem_violations (h : model.WellFormed) (hidx : model.Indexed) {judgements : Judgements}
    (hheard : Judgements.Heard rules.mode (rules.hearings model) judgements)
    {violation : RuleViolation} :
    violation ∈ violations model judgements.disallowed (rules.missing model) ↔
      rules.IsViolation model violation := by
  simp only [violations, List.mem_mergeSort, List.mem_append, List.mem_map,
    mem_disallowed h hidx hheard, mem_missing h hidx]
  refine ⟨?_, ?_⟩
  · intro hor
    rcases hor with ⟨edge, ⟨p, q, hedge, hdisallowed⟩, rfl⟩ | ⟨edge, ⟨p, q, hedge, hmissing⟩, rfl⟩
    · obtain ⟨hp, hq⟩ := names_of_isBetween h hidx hedge
      unfold IsViolation disallowedViolation
      rw [hp, hq]
      exact ⟨hdisallowed, _, _, hedge.1, hedge.2, rfl⟩
    · obtain ⟨hp, hq⟩ := names_of_isBetween h hidx hedge
      unfold IsViolation missingViolation
      rw [hp, hq]
      exact ⟨hmissing, rfl⟩
  · obtain ⟨p, q, kind, vias⟩ := violation
    cases kind with
    | disallowed =>
        rintro ⟨hdisallowed, source, target, hp, hq, rfl⟩
        refine Or.inl ⟨⟨source, target⟩, ⟨p, q, ⟨hp, hq⟩, hdisallowed⟩, ?_⟩
        rw [disallowedViolation, Model.packageName_of_packageId? h hidx hp,
          Model.packageName_of_packageId? h hidx hq]
    | missingMandatory =>
        rintro ⟨hmissing, rfl⟩
        obtain ⟨source, hp⟩ := (Model.mem_names_iff h hidx).mp hmissing.1
        obtain ⟨target, hq⟩ := (Model.mem_names_iff h hidx).mp hmissing.2.1
        refine Or.inr ⟨⟨source, target⟩, ⟨p, q, ⟨hp, hq⟩, hmissing⟩, ?_⟩
        rw [missingViolation, Model.packageName_of_packageId? h hidx hp,
          Model.packageName_of_packageId? h hidx hq]

/-- A dependency is violated in one way at most. -/
theorem IsViolation.eq {v w : RuleViolation} (hv : rules.IsViolation model v)
    (hw : rules.IsViolation model w) (hsource : v.source = w.source)
    (htarget : v.target = w.target) : v = w := by
  obtain ⟨p, q, kind, vias⟩ := v
  obtain ⟨p', q', kind', vias'⟩ := w
  obtain rfl : p = p' := hsource
  obtain rfl : q = q' := htarget
  cases kind with
  | disallowed =>
      cases kind' with
      | disallowed =>
          obtain ⟨-, s, t, hs, ht, hvias⟩ := hv
          obtain ⟨-, s', t', hs', ht', hvias'⟩ := hw
          obtain rfl := Option.some.inj (hs.symm.trans hs')
          obtain rfl := Option.some.inj (ht.symm.trans ht')
          obtain rfl : vias = vias' := hvias.trans hvias'.symm
          rfl
      | missingMandatory => exact absurd hv.1.1.1 hw.1.2.2.2.2
  | missingMandatory =>
      cases kind' with
      | disallowed => exact absurd hw.1.1.1 hv.1.2.2.2.2
      | missingMandatory =>
          obtain rfl : vias = [] := hv.2
          obtain rfl : vias' = [] := hw.2
          rfl

theorem nodup_violations (h : model.WellFormed) (hidx : model.Indexed) {judgements : Judgements}
    (hheard : Judgements.Heard rules.mode (rules.hearings model) judgements) :
    (judgements.disallowed.map (disallowedViolation model)
      ++ (rules.missing model).map (missingViolation model)).Nodup := by
  -- Different edges are between different names.
  have hinj : ∀ {e f : PackageEdge} {p q p' q' : String}, e.IsBetween model p q →
      f.IsBetween model p' q' → model.packageName e.source = model.packageName f.source →
      model.packageName e.target = model.packageName f.target → e = f := by
    intro e f p q p' q' he hf hsource htarget
    rw [(names_of_isBetween h hidx he).1, (names_of_isBetween h hidx hf).1] at hsource
    rw [(names_of_isBetween h hidx he).2, (names_of_isBetween h hidx hf).2] at htarget
    subst hsource htarget
    cases e
    cases f
    rw [PackageEdge.mk.injEq]
    exact ⟨Option.some.inj (he.1.symm.trans hf.1), Option.some.inj (he.2.symm.trans hf.2)⟩
  refine List.nodup_append.mpr ⟨?_, ?_, ?_⟩
  · refine hheard.isAscending_disallowed.nodup.map_on ?_
    intro e he f hf heq
    obtain ⟨_, _, hbe, -⟩ := (mem_disallowed h hidx hheard).mp he
    obtain ⟨_, _, hbf, -⟩ := (mem_disallowed h hidx hheard).mp hf
    exact hinj hbe hbf (congrArg (·.source) heq) (congrArg (·.target) heq)
  · refine (isAscending_ofList _).nodup.map_on ?_
    intro e he f hf heq
    obtain ⟨_, _, hbe, -⟩ := (mem_missing h hidx).mp he
    obtain ⟨_, _, hbf, -⟩ := (mem_missing h hidx).mp hf
    exact hinj hbe hbf (congrArg (·.source) heq) (congrArg (·.target) heq)
  · intro v hv w hw heq
    obtain ⟨_, -, rfl⟩ := List.mem_map.mp hv
    obtain ⟨_, -, rfl⟩ := List.mem_map.mp hw
    have hkind : ViolationKind.disallowed = .missingMandatory := congrArg (·.kind) heq
    exact ViolationKind.noConfusion hkind

theorem violations_sorted (h : model.WellFormed) (hidx : model.Indexed) {judgements : Judgements}
    (hheard : Judgements.Heard rules.mode (rules.hearings model) judgements) :
    (violations model judgements.disallowed (rules.missing model)).Pairwise fun v w =>
      v.source < w.source ∨ v.source = w.source ∧ v.target < w.target := by
  have hlt : (violations model judgements.disallowed (rules.missing model)).Pairwise
      fun v w => compare v w = .lt := pairwise_lt_mergeSort id (nodup_violations h hidx hheard)
  refine List.Pairwise.imp_of_mem ?_ hlt
  intro v w hv hw hvw
  rcases RuleViolation.names_le_of_compare_lt hvw with hsource | ⟨hsource, htarget | htarget⟩
  · exact Or.inl hsource
  · exact Or.inr ⟨hsource, htarget⟩
  · obtain rfl : v = w := IsViolation.eq ((mem_violations h hidx hheard).mp hv)
      ((mem_violations h hidx hheard).mp hw) hsource htarget
    exact absurd hvw (not_compare_self_lt v)

/-! ### Unused declarations -/

/-- All declarations of the rules that are not optional, with their patterns. -/
def declarations (rules : RuleSet) : List (UnusedRule × PackagePattern) :=
  (rules.rules.filter fun rule => !rule.optional).flatMap fun rule =>
    (declaredPatterns rule).map fun (relation, pattern) =>
      (UnusedRule.mk rule.pattern.text relation pattern.text, pattern)

theorem counts_unused (rules : RuleSet) (model : Model) :
    ∃ counter : UsageCounter UnusedRule, rules.unused model = counter.unused ∧
      counter.Counts (rules.declarations.map fun declaration =>
        (declaration.1, (matching model declaration.2).length)) := by
  refine ⟨_, ?_, UsageCounter.counts_foldl _⟩
  rw [List.foldl_map]
  rfl

theorem isAscending_unused (rules : RuleSet) (model : Model) :
    IsAscending (rules.unused model) := by
  obtain ⟨counter, heq, hcounts⟩ := counts_unused rules model
  rw [heq]
  exact hcounts.isAscending_unused

/-- A declaration is unused if none of its patterns stands for a package.  Declarations that look
the same are one. -/
theorem mem_unused {unused : UnusedRule} : unused ∈ rules.unused model ↔
    (∃ pattern, (unused, pattern) ∈ rules.declarations) ∧
      ∀ pattern, (unused, pattern) ∈ rules.declarations → matching model pattern = [] := by
  obtain ⟨counter, heq, hcounts⟩ := counts_unused rules model
  rw [heq, hcounts.mem_unused]
  simp only [List.map_map, List.mem_map, Function.comp, Prod.exists, Prod.mk.injEq,
    ← List.length_eq_zero_iff]
  refine and_congr ?_ ?_
  · simp
  · refine ⟨?_, ?_⟩
    · intro h pattern hmem
      exact h _ ⟨unused, pattern, hmem, rfl, rfl⟩
    · rintro h n ⟨_, pattern, hmem, rfl, rfl⟩
      exact h pattern hmem

theorem matching_eq_nil_iff {pattern : PackagePattern} : matching model pattern = [] ↔
    ∀ package ∈ model.packages, pattern.covers package.name = false := by
  have hpackages : model.packageList.map Prod.snd = model.packages.toList := by
    rw [Model.packageList, List.map_map]
    exact List.zipIdx_map_fst 0 _
  have hall : (∀ entry ∈ model.packageList, ¬pattern.covers entry.2.name = true) ↔
      ∀ package ∈ model.packages.toList, ¬pattern.covers package.name = true := by
    rw [← hpackages, List.forall_mem_map]
  rw [matching, List.map_eq_nil_iff, List.filter_eq_nil_iff]
  simpa using hall

theorem mem_undefined {name : String} : name ∈ rules.undefined model ↔
    (∃ package ∈ model.packages, package.name = name) ∧ rules.owners name = [] := by
  simp only [undefined, List.mem_map, List.mem_filter, Array.mem_toList_iff, List.isEmpty_iff]
  refine ⟨?_, ?_⟩
  · rintro ⟨package, ⟨hmem, hnone⟩, rfl⟩
    exact ⟨⟨package, hmem, rfl⟩, hnone⟩
  · rintro ⟨⟨package, hmem, rfl⟩, hnone⟩
    exact ⟨package, ⟨hmem, hnone⟩, rfl⟩

/-! ### The evaluation -/

theorem evaluate_of_judgements_error {error : RuleSetError}
    (hjudgements : rules.judgements model = .error error) :
    rules.evaluate model = .error error := by
  rw [evaluate, hjudgements]
  rfl

theorem evaluate_of_judgements_ok {judgements : Judgements}
    (hjudgements : rules.judgements model = .ok judgements) :
    rules.evaluate model = .ok {
      violations := violations model judgements.disallowed (rules.missing model)
      unused := rules.unused model
      undefined := rules.undefined model } := by
  rw [evaluate, hjudgements]
  rfl

theorem unused_of_evaluate {report : RuleReport} (h : rules.evaluate model = .ok report) :
    report.unused = rules.unused model ∧ report.undefined = rules.undefined model := by
  cases hjudgements : rules.judgements model with
  | error e =>
      rw [evaluate_of_judgements_error hjudgements] at h
      exact nomatch h
  | ok judgements =>
      rw [evaluate_of_judgements_ok hjudgements] at h
      obtain rfl := Except.ok.inj h
      exact ⟨rfl, rfl⟩

theorem isAmbiguous_iff_heard (h : model.WellFormed) (hidx : model.Indexed) :
    rules.IsAmbiguous model p q ↔ ∃ edge judge, edge.IsBetween model p q
      ∧ (edge, judge) ∈ rules.hearings model ∧ judge.isAmbiguous = true := by
  refine ⟨?_, ?_⟩
  · rintro ⟨hjudged, opinion, hopinion, hambiguous⟩
    obtain ⟨source, target, hp, hq, -⟩ := (Model.uses_iff h hidx).mp hjudged.1
    have hedge : PackageEdge.IsBetween ⟨source, target⟩ model p q := ⟨hp, hq⟩
    obtain ⟨judge, hjudge, rfl⟩ := (holds_iff_heard h hidx hedge hjudged).mp hopinion
    exact ⟨_, judge, hedge, hjudge, Judge.isAmbiguous_iff.mpr hambiguous⟩
  · rintro ⟨edge, judge, hedge, hjudge, hambiguous⟩
    obtain ⟨p', q', hedge', hjudged, -⟩ := (mem_hearings h hidx).mp hjudge
    obtain ⟨rfl, rfl⟩ := isBetween_inj h hidx hedge hedge'
    exact ⟨hjudged, judge.opinion, (holds_iff_heard h hidx hedge hjudged).mpr ⟨judge, hjudge, rfl⟩,
      Judge.isAmbiguous_iff.mp hambiguous⟩

/-- Where the run over the hearings stops, the dependency is the first that can not be decided. -/
theorem first_of_stopped (h : model.WellFormed) (hidx : model.Indexed)
    {before after : List (PackageEdge × Judge)}
    (heq : rules.hearings model = before ++ (edge, judge) :: after)
    (hbefore : ∀ hearing ∈ before, hearing.2.isAmbiguous = false)
    (hedge : edge.IsBetween model p q) {p' q' : String} (hother : rules.IsAmbiguous model p' q') :
    p < p' ∨ p = p' ∧ (q < q' ∨ q = q') := by
  obtain ⟨edge', judge', hedge', hmem, hambiguous⟩ := (isAmbiguous_iff_heard h hidx).mp hother
  have hsorted := rules.hearings_sorted h hidx
  rw [heq] at hmem hsorted
  -- Nothing before the one that was found is ambiguous, so the other is behind it.
  have hle : compare edge edge' = .lt ∨ edge = edge' := by
    rcases List.mem_append.mp hmem with hc | hc
    · rw [hbefore _ hc] at hambiguous
      exact Bool.noConfusion hambiguous
    · rcases List.mem_cons.mp hc with hself | hafter
      · exact Or.inr (congrArg Prod.fst hself).symm
      · have htail := (List.pairwise_append.mp hsorted).2.1
        exact (List.pairwise_cons.mp htail).1 _ hafter
  rcases hle with hlt | rfl
  · rcases (compare_isBetween h hidx hedge hedge').mp hlt with hlt | ⟨hpp, hlt⟩
    · exact Or.inl hlt
    · exact Or.inr ⟨hpp, Or.inl hlt⟩
  · obtain ⟨rfl, rfl⟩ := isBetween_inj h hidx hedge hedge'
    exact Or.inr ⟨rfl, Or.inr rfl⟩

theorem isVerdict_evaluate (rules : RuleSet) (h : model.WellFormed) (hidx : model.Indexed) :
    rules.IsVerdict model (rules.evaluate model) := by
  rcases judgements_cases rules model with
    ⟨before, edge, judge, after, heq, hbefore, hambiguous, herror⟩
    | ⟨hnone, judgements, hok, hheard⟩
  · -- The run stopped.
    have hmem : (edge, judge) ∈ rules.hearings model := by
      rw [heq]
      exact List.mem_append_right _ List.mem_cons_self
    obtain ⟨p, q, hedge, hjudged, -⟩ := (mem_hearings h hidx).mp hmem
    obtain ⟨hp, hq⟩ := names_of_isBetween h hidx hedge
    have hholds := (holds_iff_heard h hidx hedge hjudged).mpr ⟨judge, hmem, rfl⟩
    have hopinion := Judge.isAmbiguous_iff.mp hambiguous
    rw [hp, hq] at herror
    rw [evaluate_of_judgements_error herror]
    refine ⟨⟨fun _ => ⟨p, q, hjudged, _, hholds, hopinion⟩, fun _ => ⟨_, rfl⟩⟩, ?_, ?_, ?_⟩
    · intro error heq'
      obtain rfl := Except.error.inj heq'
      exact ⟨p, q, judge.opinion, rfl, hjudged, hholds, hopinion,
        fun p' q' => first_of_stopped h hidx heq hbefore hedge⟩
    · exact fun report hc => nomatch hc
    · exact fun report hc => nomatch hc
  · -- All judges were heard.
    rw [evaluate_of_judgements_ok hok]
    refine ⟨⟨?_, ?_⟩, (fun error hc => nomatch hc), ?_, ?_⟩
    · rintro ⟨error, hc⟩
      exact nomatch hc
    · rintro ⟨p, q, hambiguous⟩
      obtain ⟨edge, judge, -, hmem, hc⟩ := (isAmbiguous_iff_heard h hidx).mp hambiguous
      rw [hnone _ hmem] at hc
      exact Bool.noConfusion hc
    · intro report heq violation
      obtain rfl := Except.ok.inj heq
      exact mem_violations h hidx hheard
    · intro report heq
      obtain rfl := Except.ok.inj heq
      exact violations_sorted h hidx hheard

/-- **The evaluation of rules gives the verdict on every dependency of a model.** -/
theorem evaluate_gives_verdict (rules : RuleSet) (filter : PackageFilter)
    (records : List ClassRecord) (sources : List SourceRecord)
    (hidx : (Model.assemble filter records sources).Indexed) :
    rules.IsVerdict (Model.assemble filter records sources)
      (rules.evaluate (Model.assemble filter records sources)) :=
  isVerdict_evaluate rules (Model.assemble_wellFormed filter records sources) hidx

/-- A class of one package that uses a class of another. -/
def bridgeRecords : List ClassRecord :=
  [{ name := "app.api.Client", references := [("lib.impl.Server", 1)] }]

theorem indexed_bridge : (Model.assemble {} bridgeRecords []).Indexed := by
  unfold Model.Indexed
  decide +kernel

/-- A rule that allows and denies the use with patterns that are equally specific. -/
def undecidedRules : RuleSet where
  mode := .denyByDefault
  rules := [{ pattern := .below "app", uses := { must := [.starting "lib"] } },
    { pattern := .exact "lib.impl", usedBy := { mustNot := [.below "app"] } }]

/-- The verdict where the evaluation fails. -/
theorem undecidedRules_verdict :
    undecidedRules.evaluate (Model.assemble {} bridgeRecords [])
        = .error (.ambiguous (.below "app") "app.api" "lib.impl")
      ∧ undecidedRules.IsAmbiguous (Model.assemble {} bridgeRecords []) "app.api" "lib.impl" := by
  have herror : undecidedRules.evaluate (Model.assemble {} bridgeRecords [])
      = .error (.ambiguous (.below "app") "app.api" "lib.impl") := by
    decide +kernel
  have hverdict := evaluate_gives_verdict undecidedRules {} bridgeRecords [] indexed_bridge
  obtain ⟨p, q, opinion, heq, hjudged, hholds, hambiguous, -⟩ := hverdict.error_first _ herror
  obtain ⟨-, rfl, rfl⟩ := RuleSetError.ambiguous.inj heq
  exact ⟨herror, hjudged, opinion, hholds, hambiguous⟩

end RuleSet

end PackageAudit
