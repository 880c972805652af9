/-
What the tables of judgements hold.

The dependencies of a model are judged one after the other, and each by its judges in turn.
Laid out flat that is one list of hearings.  The run over it stops at the first judge that
cannot decide; if there is none, the tables hold the strongest of the allowances and the
weakest of the denials that were heard of each dependency.
-/
import PackageAudit.Proofs.Ascending
import PackageAudit.Proofs.Orders
import PackageAudit.Rules.Evaluation

namespace PackageAudit

open Ascending

/-! ### Tables of extremes -/

/-- A table that keeps of the numbers entered under each edge the one that all others stand in a
relation to. -/
structure KeepsExtreme (R : Nat → Nat → Prop) (entries : List (PackageEdge × Nat))
    (table : List (PackageEdge × Nat)) : Prop where
  isTable : IsTable table
  none : ∀ edge, find? edge table = none → ∀ n, (edge, n) ∉ entries
  some : ∀ edge kept, find? edge table = some kept →
    (edge, kept) ∈ entries ∧ ∀ n, (edge, n) ∈ entries → R n kept

theorem keepsExtreme_nil (R : Nat → Nat → Prop) : KeepsExtreme R [] [] where
  isTable := List.Pairwise.nil
  none _ _ _ := List.not_mem_nil
  some _ _ h := by simp [find?] at h

section Enter

variable {R : Nat → Nat → Prop} {pick : Nat → Nat → Nat}
  {entries table : List (PackageEdge × Nat)}

/-- What is picked from the number that is kept and a new one is the extreme of all. -/
theorem KeepsExtreme.isExtreme_pick (h : KeepsExtreme R entries table)
    (hpick : ∀ a b, pick a b = a ∨ pick a b = b)
    (hR : ∀ a b n, R n a ∨ n = b → R n (pick a b)) (edge : PackageEdge) (n : Nat) :
    (edge, pick ((find? edge table).getD n) n) ∈ entries ++ [(edge, n)]
      ∧ ∀ m, (edge, m) ∈ entries ++ [(edge, n)] → R m (pick ((find? edge table).getD n) n) := by
  simp only [List.mem_append, List.mem_singleton, Prod.mk.injEq, true_and]
  cases hold : find? edge table with
  | none =>
      have hfresh := h.none edge hold
      have hself : pick n n = n := (hpick n n).elim id id
      refine ⟨Or.inr hself, ?_⟩
      intro m hm
      rcases hm with hm | hm
      · exact absurd hm (hfresh m)
      · exact hR n n m (Or.inr hm)
  | some old =>
      obtain ⟨hmem, hall⟩ := h.some edge old hold
      refine ⟨?_, ?_⟩
      · rcases hpick old n with hp | hp
        · exact Or.inl (hp.symm ▸ hmem)
        · exact Or.inr hp
      · intro m hm
        rcases hm with hm | hm
        · exact hR old n m (Or.inl (hall m hm))
        · exact hR old n m (Or.inr hm)

/-- Picking the extreme of what is kept and what is entered keeps the extreme. -/
theorem KeepsExtreme.enter (h : KeepsExtreme R entries table)
    (hpick : ∀ a b, pick a b = a ∨ pick a b = b)
    (hR : ∀ a b n, R n a ∨ n = b → R n (pick a b)) (edge : PackageEdge) (n : Nat) :
    KeepsExtreme R (entries ++ [(edge, n)])
      (alter edge (fun known => pick (known.getD n) n) table) := by
  refine ⟨isTable_alter h.isTable _ _, ?_, ?_⟩
  · intro other hnone m
    by_cases hother : other = edge
    · rw [hother, find?_alter_self h.isTable] at hnone
      exact absurd hnone (Option.some_ne_none _)
    · rw [find?_alter_of_ne h.isTable hother] at hnone
      have hold := h.none other hnone m
      simp [hold, hother]
  · intro other kept hsome
    by_cases hother : other = edge
    · rw [hother, find?_alter_self h.isTable] at hsome
      obtain rfl := Option.some.inj hsome
      rw [hother]
      exact h.isExtreme_pick hpick hR edge n
    · rw [find?_alter_of_ne h.isTable hother] at hsome
      obtain ⟨hmem, hall⟩ := h.some other kept hsome
      refine ⟨List.mem_append_left _ hmem, ?_⟩
      intro m hm
      rcases List.mem_append.mp hm with hm | hm
      · exact hall m hm
      · rw [List.mem_singleton, Prod.mk.injEq] at hm
        exact absurd hm.1 hother

end Enter

/-! ### Hearings -/

/-- What the judges that speak of a kind enter, each its own number. -/
def statements (speaks : Judge → Bool) (number : Judge → Nat)
    (heard : List (PackageEdge × Judge)) : List (PackageEdge × Nat) :=
  (heard.filter (speaks ·.2)).map fun (edge, judge) => (edge, number judge)

section Statements

variable {speaks : Judge → Bool} {number : Judge → Nat} {heard : List (PackageEdge × Judge)}

theorem mem_statements {edge : PackageEdge} {n : Nat} : (edge, n) ∈ statements speaks number heard ↔
    ∃ judge, (edge, judge) ∈ heard ∧ speaks judge = true ∧ number judge = n := by
  simp only [statements, List.mem_map, List.mem_filter, Prod.exists, Prod.mk.injEq]
  refine ⟨?_, ?_⟩
  · rintro ⟨_, judge, ⟨hmem, hspeaks⟩, rfl, hn⟩
    exact ⟨judge, hmem, hspeaks, hn⟩
  · rintro ⟨judge, hmem, hspeaks, hn⟩
    exact ⟨edge, judge, ⟨hmem, hspeaks⟩, rfl, hn⟩

theorem statements_append (heard : List (PackageEdge × Judge)) (edge : PackageEdge)
    (judge : Judge) : statements speaks number (heard ++ [(edge, judge)])
      = statements speaks number heard ++ if speaks judge then [(edge, number judge)] else [] := by
  unfold statements
  rw [List.filter_append, List.map_append]
  cases h : speaks judge <;> simp [h]

/-- A judge that speaks enters its number, and any other changes nothing. -/
theorem KeepsExtreme.hear {R : Nat → Nat → Prop} {pick : Nat → Nat → Nat}
    {table : List (PackageEdge × Nat)} (h : KeepsExtreme R (statements speaks number heard) table)
    (hpick : ∀ a b, pick a b = a ∨ pick a b = b)
    (hR : ∀ a b n, R n a ∨ n = b → R n (pick a b)) (edge : PackageEdge) (judge : Judge) :
    KeepsExtreme R (statements speaks number (heard ++ [(edge, judge)]))
      (if speaks judge then
        alter edge (fun known => pick (known.getD (number judge)) (number judge)) table
      else table) := by
  rw [statements_append]
  by_cases hspeaks : speaks judge = true
  · rw [if_pos hspeaks, if_pos hspeaks]
    exact h.enter hpick hR edge _
  · rw [if_neg hspeaks, if_neg hspeaks, List.append_nil]
    exact h

end Statements

namespace Judgements

/-- Tables that hold the strongest allowances and the weakest denials that were heard. -/
structure Heard (mode : ClosureMode) (heard : List (PackageEdge × Judge))
    (judgements : Judgements) : Prop where
  allowed : KeepsExtreme (· ≤ ·) (statements (·.allows mode) Judge.specificity heard)
    judgements.allowed
  denied : KeepsExtreme (· ≥ ·) (statements (·.denies mode) Judge.denialWeight heard)
    judgements.denied

variable {mode : ClosureMode} {heard : List (PackageEdge × Judge)} {judgements : Judgements}
  {edge : PackageEdge} {judge : Judge} {n : Nat}

theorem heard_nil (mode : ClosureMode) : Heard mode [] {} :=
  ⟨keepsExtreme_nil _, keepsExtreme_nil _⟩

theorem enter_allowed (mode : ClosureMode) (edge : PackageEdge) (judgements : Judgements)
    (judge : Judge) : (judgements.enter mode edge judge).allowed
      = if judge.allows mode then (judgements.allow edge judge.specificity).allowed
        else judgements.allowed := by
  unfold enter
  cases judge.allows mode <;> cases judge.denies mode <;> rfl

theorem enter_denied (mode : ClosureMode) (edge : PackageEdge) (judgements : Judgements)
    (judge : Judge) : (judgements.enter mode edge judge).denied
      = if judge.denies mode then (judgements.deny edge judge.denialWeight).denied
        else judgements.denied := by
  unfold enter
  cases judge.allows mode <;> cases judge.denies mode <;> rfl

/-- One more judge is heard. -/
theorem Heard.enter (h : Heard mode heard judgements) (edge : PackageEdge) (judge : Judge) :
    Heard mode (heard ++ [(edge, judge)]) (judgements.enter mode edge judge) := by
  refine ⟨?_, ?_⟩
  · rw [enter_allowed]
    refine h.allowed.hear ?_ ?_ edge judge
    · intro a b
      rcases Nat.le_total a b with hab | hab
      · exact Or.inr (Nat.max_eq_right hab)
      · exact Or.inl (Nat.max_eq_left hab)
    · intro a b n hn
      rcases hn with hle | rfl
      · exact Nat.le_trans hle (Nat.le_max_left a b)
      · exact Nat.le_max_right a n
  · rw [enter_denied]
    refine h.denied.hear ?_ ?_ edge judge
    · intro a b
      rcases Nat.le_total a b with hab | hab
      · exact Or.inl (Nat.min_eq_left hab)
      · exact Or.inr (Nat.min_eq_right hab)
    · intro a b n hn
      rcases hn with hle | rfl
      · exact Nat.le_trans (Nat.min_le_left a b) hle
      · exact Nat.min_le_right a n

/-- All judges are heard. -/
theorem heard_foldl (mode : ClosureMode) (hearings : List (PackageEdge × Judge)) :
    Heard mode hearings (hearings.foldl
      (fun judgements hearing => judgements.enter mode hearing.1 hearing.2) {}) := by
  have hfold : ∀ (more heard : List (PackageEdge × Judge)) (judgements : Judgements),
      Heard mode heard judgements → Heard mode (heard ++ more) (more.foldl
        (fun judgements hearing => judgements.enter mode hearing.1 hearing.2) judgements) := by
    intro more
    induction more with
    | nil =>
        intro heard judgements h
        rw [List.append_nil]
        exact h
    | cons hearing more ih =>
        intro heard judgements h
        rw [List.append_cons]
        exact ih _ _ (h.enter hearing.1 hearing.2)
  exact hfold hearings [] {} (heard_nil mode)

/-- A dependency is disallowed if a judge denies it, and no judge that allows it is more specific
than the weight of a denial. -/
theorem Heard.mem_disallowed (h : Heard mode heard judgements) :
    edge ∈ judgements.disallowed ↔
      (∃ judge, (edge, judge) ∈ heard ∧ judge.denies mode = true)
        ∧ ∀ j, (edge, j) ∈ heard → j.allows mode = true →
          ∀ k, (edge, k) ∈ heard → k.denies mode = true → j.specificity ≤ k.denialWeight := by
  have hmem : edge ∈ judgements.disallowed ↔ ∃ weight, find? edge judgements.denied = some weight
      ∧ (find? edge judgements.allowed).all (· ≤ weight) = true := by
    simp only [disallowed, List.mem_map, List.mem_filter, Prod.exists,
      ← find?_eq_some_iff h.denied.isTable]
    refine ⟨?_, ?_⟩
    · rintro ⟨_, weight, hentry, rfl⟩
      exact ⟨weight, hentry⟩
    · rintro ⟨weight, hentry⟩
      exact ⟨edge, weight, hentry, rfl⟩
  rw [hmem]
  refine ⟨?_, ?_⟩
  · rintro ⟨weight, hdenied, hall⟩
    obtain ⟨hin, hleast⟩ := h.denied.some edge weight hdenied
    obtain ⟨judge, hjudge, hdenies, -⟩ := mem_statements.mp hin
    refine ⟨⟨judge, hjudge, hdenies⟩, ?_⟩
    intro j hj hallows k hk hkdenies
    have hweight : weight ≤ k.denialWeight := hleast _ (mem_statements.mpr ⟨k, hk, hkdenies, rfl⟩)
    cases hallowed : find? edge judgements.allowed with
    | none =>
        exact absurd (mem_statements.mpr ⟨j, hj, hallows, rfl⟩) (h.allowed.none edge hallowed _)
    | some strength =>
        rw [hallowed] at hall
        have hstrength : strength ≤ weight := of_decide_eq_true hall
        have hle : j.specificity ≤ strength :=
          (h.allowed.some edge strength hallowed).2 _ (mem_statements.mpr ⟨j, hj, hallows, rfl⟩)
        omega
  · rintro ⟨⟨judge, hjudge, hdenies⟩, hall⟩
    cases hdenied : find? edge judgements.denied with
    | none =>
        exact absurd (mem_statements.mpr ⟨judge, hjudge, hdenies, rfl⟩)
          (h.denied.none edge hdenied _)
    | some weight =>
        refine ⟨weight, rfl, ?_⟩
        obtain ⟨hin, -⟩ := h.denied.some edge weight hdenied
        obtain ⟨k, hk, hkdenies, rfl⟩ := mem_statements.mp hin
        cases hallowed : find? edge judgements.allowed with
        | none => rfl
        | some strength =>
            obtain ⟨hin, -⟩ := h.allowed.some edge strength hallowed
            obtain ⟨j, hj, hallows, rfl⟩ := mem_statements.mp hin
            exact decide_eq_true (hall j hj hallows k hk hkdenies)

theorem Heard.isAscending_disallowed (h : Heard mode heard judgements) :
    IsAscending judgements.disallowed := by
  have hsub : judgements.disallowed.Sublist (judgements.denied.map Prod.fst) :=
    List.filter_sublist.map Prod.fst
  exact List.Pairwise.sublist hsub h.denied.isTable

end Judgements

/-! ### The run -/

namespace RuleSet

variable {rules : RuleSet} {model : Model}

/-- The judges of a dependency, none if it is inside the territory of a rule. -/
def edgeHearings (rules : RuleSet) (model : Model) (entry : PackageId × Package)
    (target : PackageId) : List (PackageEdge × Judge) :=
  if isSelfReference (rules.owners entry.2.name) (model.packageName target) then []
  else (rules.judges (rules.owners entry.2.name) (model.packageName entry.1)
    (model.packageName target)).map (⟨entry.1, target⟩, ·)

/-- The judges of all dependencies of a model, in the order in which they are heard. -/
def hearings (rules : RuleSet) (model : Model) : List (PackageEdge × Judge) :=
  model.packageList.flatMap fun entry =>
    (model.uses entry.1).flatMap (rules.edgeHearings model entry)

theorem mem_edgeHearings {entry : PackageId × Package} {target : PackageId} {edge : PackageEdge}
    {judge : Judge} : (edge, judge) ∈ rules.edgeHearings model entry target ↔
      edge = ⟨entry.1, target⟩
        ∧ ¬ isSelfReference (rules.owners entry.2.name) (model.packageName target) = true
        ∧ judge ∈ rules.judges (rules.owners entry.2.name) (model.packageName entry.1)
          (model.packageName target) := by
  unfold edgeHearings
  by_cases hself : isSelfReference (rules.owners entry.2.name) (model.packageName target) = true
  · simp [hself]
  · rw [if_neg hself, List.mem_map]
    simp only [Prod.mk.injEq]
    refine ⟨?_, ?_⟩
    · rintro ⟨_, hjudge, rfl, rfl⟩
      exact ⟨rfl, hself, hjudge⟩
    · rintro ⟨rfl, -, hjudge⟩
      exact ⟨judge, hjudge, rfl, rfl⟩

theorem foldlM_flatMap {α β γ ε : Type} (items : List α) (parts : α → List β)
    (step : γ → β → Except ε γ) (start : γ) :
    (items.flatMap parts).foldlM step start
      = items.foldlM (fun state item => (parts item).foldlM step state) start := by
  induction items generalizing start with
  | nil => rfl
  | cons item rest ih =>
      rw [List.flatMap_cons, List.foldlM_append, List.foldlM_cons]
      exact congrArg _ (funext ih)

/-- Package by package and dependency by dependency, it is the hearings that are gone through. -/
theorem judgements_eq (rules : RuleSet) (model : Model) :
    rules.judgements model = (rules.hearings model).foldlM
      (fun judgements hearing => rules.hear model hearing.1 judgements hearing.2) {} := by
  unfold judgements hearings
  rw [foldlM_flatMap]
  refine congrArg (fun step => List.foldlM step _ _) (funext fun state => funext fun entry => ?_)
  unfold judgePackage
  rw [foldlM_flatMap]
  refine congrArg (fun step => List.foldlM step _ _) (funext fun state => funext fun target => ?_)
  unfold judgeEdge edgeHearings
  by_cases hself : isSelfReference (rules.owners entry.2.name) (model.packageName target) = true
  · rw [if_pos hself, if_pos hself]
    rfl
  · rw [if_neg hself, if_neg hself, List.foldlM_map]

/-- The run stops at the first judge that cannot decide. -/
theorem foldlM_hear (rules : RuleSet) (model : Model) (hearings : List (PackageEdge × Judge))
    (judgements : Judgements) :
    hearings.foldlM (fun judgements hearing => rules.hear model hearing.1 judgements hearing.2)
        judgements
      = match hearings.find? (·.2.isAmbiguous) with
        | some (edge, judge) => .error (.ambiguous (judge.pattern.getD .every)
            (model.packageName edge.source) (model.packageName edge.target))
        | none => .ok (hearings.foldl
            (fun judgements hearing => judgements.enter rules.mode hearing.1 hearing.2)
            judgements) := by
  induction hearings generalizing judgements with
  | nil => rfl
  | cons hearing rest ih =>
      rw [List.foldlM_cons, List.find?_cons]
      unfold hear
      by_cases hambiguous : hearing.2.isAmbiguous = true
      · rw [if_pos hambiguous, hambiguous]
        rfl
      · rw [if_neg hambiguous, eq_false_of_ne_true hambiguous]
        exact ih _

theorem judgements_of_find?_some {hearing : PackageEdge × Judge}
    (h : (rules.hearings model).find? (·.2.isAmbiguous) = some hearing) :
    rules.judgements model = .error (.ambiguous (hearing.2.pattern.getD .every)
      (model.packageName hearing.1.source) (model.packageName hearing.1.target)) := by
  rw [judgements_eq, foldlM_hear, h]

theorem judgements_of_find?_none
    (h : (rules.hearings model).find? (·.2.isAmbiguous) = none) :
    ∃ judgements, rules.judgements model = .ok judgements
      ∧ Judgements.Heard rules.mode (rules.hearings model) judgements := by
  rw [judgements_eq, foldlM_hear, h]
  exact ⟨_, rfl, Judgements.heard_foldl _ _⟩

/-- Either the run stops at the first judge that cannot decide, or all judges are heard. -/
theorem judgements_cases (rules : RuleSet) (model : Model) :
    (∃ before edge judge after, rules.hearings model = before ++ (edge, judge) :: after
        ∧ (∀ hearing ∈ before, hearing.2.isAmbiguous = false) ∧ judge.isAmbiguous = true
        ∧ rules.judgements model = .error (.ambiguous (judge.pattern.getD .every)
            (model.packageName edge.source) (model.packageName edge.target)))
      ∨ (∀ hearing ∈ rules.hearings model, hearing.2.isAmbiguous = false)
        ∧ ∃ judgements, rules.judgements model = .ok judgements
          ∧ Judgements.Heard rules.mode (rules.hearings model) judgements := by
  cases hfind : (rules.hearings model).find? (·.2.isAmbiguous) with
  | some hearing =>
      obtain ⟨hambiguous, before, after, heq, hbefore⟩ := List.find?_eq_some_iff_append.mp hfind
      refine Or.inl ⟨before, hearing.1, hearing.2, after, heq, ?_, hambiguous,
        judgements_of_find?_some hfind⟩
      intro other hother
      exact (Bool.not_eq_true' _).mp (hbefore other hother)
  | none =>
      refine Or.inr ⟨?_, judgements_of_find?_none hfind⟩
      intro hearing hmem
      exact eq_false_of_ne_true (List.find?_eq_none.mp hfind hearing hmem)

end RuleSet

end PackageAudit
