/-
Sets and tables as ascending lists.

Adding a member keeps a list ascending, and two ascending lists with the same members are
equal.  For tables the fact to remember is what a key has after a change: the changed value if
it is the key of the change, and what it had before otherwise.  That holds only if the keys are
ascending, since looking a key up stops at the first greater one.
-/
import Mathlib.Data.List.Basic
import PackageAudit.Ascending

namespace PackageAudit.Ascending

variable {α β γ : Type} [Ord α]

/-- The members stand in strictly increasing order. -/
def IsAscending (items : List α) : Prop := items.Pairwise fun a b => compare a b = .lt

/-- The keys of a table stand in strictly increasing order. -/
def IsTable (table : List (α × β)) : Prop := IsAscending (table.map Prod.fst)

theorem isTable_cons {entry : α × β} {table : List (α × β)} :
    IsTable (entry :: table) ↔ (∀ e ∈ table, compare entry.1 e.1 = .lt) ∧ IsTable table := by
  unfold IsTable IsAscending
  rw [List.map_cons, List.pairwise_cons]
  simp

/-! ### Members -/

section Members

variable [Std.LawfulEqOrd α]

theorem mem_insert {a b : α} {items : List α} : b ∈ insert a items ↔ b = a ∨ b ∈ items := by
  induction items with
  | nil => simp [insert]
  | cons c rest ih =>
      unfold insert
      split
      · exact List.mem_cons
      · rename_i heq
        have hac : a = c := Std.LawfulEqCmp.eq_of_compare heq
        rw [hac, List.mem_cons]
        exact ⟨Or.inr, fun h => h.elim Or.inl id⟩
      · rw [List.mem_cons, ih, List.mem_cons]
        exact or_left_comm

theorem mem_union {a : α} {set items : List α} : a ∈ union set items ↔ a ∈ set ∨ a ∈ items := by
  unfold union
  induction items generalizing set with
  | nil => simp
  | cons b rest ih =>
      rw [List.foldl_cons, ih, mem_insert, List.mem_cons, or_assoc, or_left_comm]

theorem mem_ofList {a : α} {items : List α} : a ∈ ofList items ↔ a ∈ items := by
  have h : a ∈ union [] items ↔ a ∈ ([] : List α) ∨ a ∈ items := mem_union
  rw [or_iff_right List.not_mem_nil] at h
  exact h

theorem mem_keys_alter {key a : α} {update : Option β → β} {table : List (α × β)} :
    a ∈ (alter key update table).map Prod.fst ↔ a = key ∨ a ∈ table.map Prod.fst := by
  induction table with
  | nil => simp [alter]
  | cons entry rest ih =>
      obtain ⟨k, x⟩ := entry
      unfold alter
      split
      · simp
      · rename_i hcmp
        have hkey : key = k := Std.LawfulEqCmp.eq_of_compare hcmp
        simp [hkey]
      · rw [List.map_cons, List.mem_cons, ih, List.map_cons, List.mem_cons]
        exact or_left_comm

theorem mem_keys_foldl_alter {pairs : List (α × γ)} (update : γ → Option β → β) {a : α}
    {table : List (α × β)} :
    a ∈ (pairs.foldl (fun table pair => alter pair.1 (update pair.2) table) table).map Prod.fst
      ↔ a ∈ pairs.map Prod.fst ∨ a ∈ table.map Prod.fst := by
  induction pairs generalizing table with
  | nil => simp
  | cons pair rest ih =>
      rw [List.foldl_cons, ih, mem_keys_alter, List.map_cons, List.mem_cons, or_assoc, or_left_comm]

theorem mem_keys_ofPairs {pairs : List (α × β)} {a : α} :
    a ∈ (ofPairs pairs).map Prod.fst ↔ a ∈ pairs.map Prod.fst :=
  (mem_keys_foldl_alter fun value _ => value).trans (or_iff_left List.not_mem_nil)

end Members

/-! ### Sets -/

variable [Std.TransOrd α]

theorem compare_lt_of_gt {a b : α} (h : compare a b = .gt) : compare b a = .lt :=
  Std.OrientedCmp.gt_iff_lt.mp h

theorem compare_lt_trans {a b c : α} (hab : compare a b = .lt) (hbc : compare b c = .lt) :
    compare a c = .lt :=
  Std.TransCmp.lt_trans hab hbc

theorem not_compare_self_lt (a : α) : compare a a ≠ .lt := by
  have h : compare a a = .eq := Std.ReflCmp.compare_self
  rw [h]
  exact Ordering.noConfusion

theorem IsAscending.nodup {items : List α} (h : IsAscending items) : items.Nodup :=
  h.imp fun hlt heq => by
    rw [heq] at hlt
    exact not_compare_self_lt _ hlt

/-- An ascending list is determined by its members. -/
theorem IsAscending.ext {l₁ l₂ : List α} (h₁ : IsAscending l₁) (h₂ : IsAscending l₂)
    (h : ∀ a, a ∈ l₁ ↔ a ∈ l₂) : l₁ = l₂ := by
  have hperm : l₁.Perm l₂ := (List.perm_ext_iff_of_nodup h₁.nodup h₂.nodup).mpr h
  refine hperm.eq_of_pairwise ?_ h₁ h₂
  intro a b _ _ hab hba
  exact absurd (compare_lt_trans hab hba) (not_compare_self_lt a)

/-- In an ascending list the order of members is the order of their positions. -/
theorem IsAscending.compare_getElem? {items : List α} (h : IsAscending items) {i j : Nat} {a b : α}
    (hi : items[i]? = some a) (hj : items[j]? = some b) : compare a b = .lt ↔ i < j := by
  obtain ⟨hilt, rfl⟩ := List.getElem?_eq_some_iff.mp hi
  obtain ⟨hjlt, rfl⟩ := List.getElem?_eq_some_iff.mp hj
  have hpair := List.pairwise_iff_getElem.mp h
  refine ⟨?_, ?_⟩
  · intro hlt
    rcases Nat.lt_trichotomy i j with hij | hij | hij
    · exact hij
    · subst hij
      exact absurd hlt (not_compare_self_lt _)
    · exact absurd (compare_lt_trans hlt (hpair j i hjlt hilt hij)) (not_compare_self_lt _)
  · exact hpair i j hilt hjlt

theorem IsAscending.getElem?_inj {items : List α} (h : IsAscending items) {i j : Nat} {a : α}
    (hi : items[i]? = some a) (hj : items[j]? = some a) : i = j := by
  obtain ⟨hilt, heq⟩ := List.getElem?_eq_some_iff.mp hi
  exact (List.getElem?_inj hilt h.nodup).mp (hi.trans hj.symm)

variable [Std.LawfulEqOrd α]

theorem isAscending_insert {items : List α} (h : IsAscending items) (a : α) :
    IsAscending (insert a items) := by
  induction items with
  | nil => exact List.pairwise_singleton _ a
  | cons c rest ih =>
      obtain ⟨hc, hrest⟩ := List.pairwise_cons.mp h
      unfold insert
      split
      · rename_i hlt
        refine List.pairwise_cons.mpr ⟨?_, h⟩
        intro b hb
        rcases List.mem_cons.mp hb with rfl | hb
        · exact hlt
        · exact compare_lt_trans hlt (hc b hb)
      · exact h
      · rename_i hgt
        refine List.pairwise_cons.mpr ⟨?_, ih hrest⟩
        intro b hb
        rcases mem_insert.mp hb with rfl | hb
        · exact compare_lt_of_gt hgt
        · exact hc b hb

theorem isAscending_union {set : List α} (h : IsAscending set) (items : List α) :
    IsAscending (union set items) := by
  unfold union
  induction items generalizing set with
  | nil => exact h
  | cons b rest ih => exact ih (isAscending_insert h b)

theorem isAscending_ofList (items : List α) : IsAscending (ofList items) :=
  isAscending_union List.Pairwise.nil items

/-- The ascending list of some items is the only ascending list of them. -/
theorem ofList_eq_iff {items set : List α} :
    ofList items = set ↔ IsAscending set ∧ ∀ a, a ∈ items ↔ a ∈ set := by
  refine ⟨?_, ?_⟩
  · intro heq
    obtain rfl := heq
    exact ⟨isAscending_ofList items, fun a => mem_ofList.symm⟩
  · rintro ⟨hset, hmem⟩
    exact (isAscending_ofList items).ext hset fun a => mem_ofList.trans (hmem a)

/-! ### Tables -/

/-- A key has the value that stands beside it. -/
theorem find?_eq_some_iff {table : List (α × β)} (h : IsTable table) {key : α} {value : β} :
    find? key table = some value ↔ (key, value) ∈ table := by
  induction table with
  | nil => simp [find?]
  | cons entry rest ih =>
      obtain ⟨k, x⟩ := entry
      obtain ⟨hlt, hrest⟩ := isTable_cons.mp h
      unfold find?
      rw [List.mem_cons]
      split
      · rename_i hcmp
        refine ⟨?_, ?_⟩
        · exact fun hc => by simp at hc
        · intro hor
          rcases hor with hc | hc
          · rw [(Prod.mk.inj hc).1] at hcmp
            exact absurd hcmp (not_compare_self_lt k)
          · exact absurd (compare_lt_trans hcmp (hlt _ hc)) (not_compare_self_lt key)
      · rename_i hcmp
        have hkey : key = k := Std.LawfulEqCmp.eq_of_compare hcmp
        refine ⟨?_, ?_⟩
        · intro hc
          rw [hkey, Option.some.inj hc]
          exact Or.inl rfl
        · intro hor
          rcases hor with hc | hc
          · rw [(Prod.mk.inj hc).2]
          · have := hlt _ hc
            rw [hkey] at this
            exact absurd this (not_compare_self_lt k)
      · rename_i hcmp
        rw [ih hrest]
        refine ⟨Or.inr, fun hc => hc.resolve_left fun heq => ?_⟩
        rw [(Prod.mk.inj heq).1] at hcmp
        exact absurd (compare_lt_of_gt hcmp) (not_compare_self_lt k)

/-- A table is determined by what its keys have. -/
theorem IsTable.ext {t₁ t₂ : List (α × β)} (h₁ : IsTable t₁) (h₂ : IsTable t₂)
    (h : ∀ key, find? key t₁ = find? key t₂) : t₁ = t₂ := by
  have hsorted : ∀ {table : List (α × β)}, IsTable table →
      table.Pairwise fun a b => compare a.1 b.1 = .lt := fun htable => List.pairwise_map.mp htable
  have hnodup : ∀ {table : List (α × β)}, IsTable table → table.Nodup := by
    intro table htable
    refine (hsorted htable).imp ?_
    intro a b hlt heq
    rw [heq] at hlt
    exact not_compare_self_lt b.1 hlt
  have hmem : ∀ entry, entry ∈ t₁ ↔ entry ∈ t₂ := by
    intro entry
    rw [← find?_eq_some_iff h₁, ← find?_eq_some_iff h₂, h]
  have hperm : t₁.Perm t₂ := (List.perm_ext_iff_of_nodup (hnodup h₁) (hnodup h₂)).mpr hmem
  refine hperm.eq_of_pairwise ?_ (hsorted h₁) (hsorted h₂)
  intro a b _ _ hab hba
  exact absurd (compare_lt_trans hab hba) (not_compare_self_lt a.1)

theorem isTable_alter {table : List (α × β)} (h : IsTable table) (key : α)
    (update : Option β → β) : IsTable (alter key update table) := by
  induction table with
  | nil => exact List.pairwise_singleton _ _
  | cons entry rest ih =>
      obtain ⟨k, x⟩ := entry
      obtain ⟨hlt, hrest⟩ := isTable_cons.mp h
      unfold alter
      split
      · rename_i hcmp
        refine isTable_cons.mpr ⟨?_, h⟩
        intro e he
        rcases List.mem_cons.mp he with rfl | he
        · exact hcmp
        · exact compare_lt_trans hcmp (hlt e he)
      · exact isTable_cons.mpr ⟨hlt, hrest⟩
      · rename_i hcmp
        refine isTable_cons.mpr ⟨?_, ih hrest⟩
        intro e he
        have hmem : e.1 ∈ (alter key update rest).map Prod.fst := List.mem_map_of_mem he
        rcases mem_keys_alter.mp hmem with heq | hmem
        · rw [heq]
          exact compare_lt_of_gt hcmp
        · obtain ⟨e', he', heq⟩ := List.mem_map.mp hmem
          rw [← heq]
          exact hlt e' he'

/-- What a key has after a change. -/
theorem find?_alter {table : List (α × β)} (h : IsTable table) (key k : α)
    (update : Option β → β) :
    find? k (alter key update table)
      = if compare k key = .eq then some (update (find? key table)) else find? k table := by
  induction table with
  | nil =>
      unfold alter find?
      cases hcmp : compare k key <;> simp [find?]
  | cons entry rest ih =>
      obtain ⟨c, x⟩ := entry
      obtain ⟨hlt, hrest⟩ := isTable_cons.mp h
      unfold alter
      cases hkc : compare key c with
      | lt =>
          simp only [find?, hkc]
          cases hcmp : compare k key with
          | lt => rw [compare_lt_trans hcmp hkc]; simp
          | eq => simp
          | gt => simp
      | eq =>
          have hkey : key = c := Std.LawfulEqCmp.eq_of_compare hkc
          subst hkey
          simp only [find?]
          cases hcmp : compare k key <;> simp [Std.ReflCmp.compare_self]
      | gt =>
          simp only [find?, hkc, ih hrest]
          cases hcmp : compare k c with
          | lt =>
              have hlt' : compare k key = .lt := compare_lt_trans hcmp (compare_lt_of_gt hkc)
              simp [hlt']
          | eq =>
              have hkey : k = c := Std.LawfulEqCmp.eq_of_compare hcmp
              subst hkey
              simp [compare_lt_of_gt hkc]
          | gt => rfl

theorem find?_alter_self {table : List (α × β)} (h : IsTable table) (key : α)
    (update : Option β → β) :
    find? key (alter key update table) = some (update (find? key table)) := by
  have hself : compare key key = .eq := Std.ReflCmp.compare_self
  rw [find?_alter h, if_pos hself]

theorem find?_alter_of_ne {table : List (α × β)} (h : IsTable table) {key k : α} (hne : k ≠ key)
    (update : Option β → β) : find? k (alter key update table) = find? k table := by
  have hcmp : ¬ compare k key = .eq := fun hc => hne (Std.LawfulEqCmp.eq_of_compare hc)
  rw [find?_alter h, if_neg hcmp]

theorem isTable_foldl_alter {pairs : List (α × γ)} (update : γ → Option β → β)
    {table : List (α × β)} (h : IsTable table) :
    IsTable (pairs.foldl (fun table pair => alter pair.1 (update pair.2) table) table) := by
  induction pairs generalizing table with
  | nil => exact h
  | cons pair rest ih => exact ih (isTable_alter h _ _)

theorem isTable_ofPairs (pairs : List (α × β)) : IsTable (ofPairs pairs) :=
  isTable_foldl_alter (fun value _ => value) List.Pairwise.nil

theorem mem_alter_const {table : List (α × β)} (h : IsTable table) {key : α} {value : β}
    {entry : α × β} :
    entry ∈ alter key (fun _ => value) table ↔
      entry = (key, value) ∨ entry.1 ≠ key ∧ entry ∈ table := by
  obtain ⟨k, x⟩ := entry
  rw [← find?_eq_some_iff (isTable_alter h key _), Prod.mk.injEq]
  by_cases hkey : k = key
  · subst hkey
    rw [find?_alter_self h, Option.some.injEq]
    simp [eq_comm]
  · rw [find?_alter_of_ne h hkey, find?_eq_some_iff h]
    simp [hkey]

/-- If no two pairs have the same key, their table holds them all and nothing else. -/
theorem mem_ofPairs {pairs : List (α × β)} (h : (pairs.map Prod.fst).Nodup) {entry : α × β} :
    entry ∈ ofPairs pairs ↔ entry ∈ pairs := by
  have hfold : ∀ (pairs : List (α × β)) (table : List (α × β)), IsTable table →
      (pairs.map Prod.fst).Nodup → (entry ∈ pairs.foldl
          (fun table pair => alter pair.1 (fun _ => pair.2) table) table ↔
        entry ∈ pairs ∨ entry.1 ∉ pairs.map Prod.fst ∧ entry ∈ table) := by
    intro pairs
    induction pairs with
    | nil => simp
    | cons pair rest ih =>
        intro table htable hnodup
        rw [List.map_cons, List.nodup_cons] at hnodup
        rw [List.foldl_cons, ih _ (isTable_alter htable _ _) hnodup.2, mem_alter_const htable,
          List.mem_cons, List.map_cons, List.mem_cons]
        -- The pair itself stays, since its key does not come again.
        by_cases hentry : entry = pair
        · subst hentry
          simp [hnodup.1]
        · simp only [Prod.eta, hentry, false_or]
          tauto
  exact (hfold pairs [] List.Pairwise.nil h).trans (by simp)

end PackageAudit.Ascending
