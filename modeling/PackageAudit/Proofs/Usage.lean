/-
What a counter of uses reports.

Declaring a key and using it are the same move with different numbers: a use of 0 or more is
recorded.  So one statement covers every sequence of declarations and uses: the keys that are
reported as unused are those that occur in the sequence with no number other than 0.
-/
import PackageAudit.Proofs.Ascending
import PackageAudit.Usage

namespace PackageAudit.UsageCounter

open Ascending

variable {κ : Type} [Ord κ]

/-- What a counter knows after a sequence of uses. -/
structure Counts (counter : UsageCounter κ) (uses : List (κ × Nat)) : Prop where
  table : IsTable counter.counts
  declared : ∀ key, find? key counter.counts = none ↔ key ∉ uses.map Prod.fst
  zero_iff : ∀ key n, find? key counter.counts = some n → (n = 0 ↔ ∀ m, (key, m) ∈ uses → m = 0)

theorem counts_empty : Counts ({} : UsageCounter κ) [] where
  table := List.Pairwise.nil
  declared _ := ⟨fun _ => List.not_mem_nil, fun _ => rfl⟩
  zero_iff _ _ h := by simp [find?] at h

theorem Counts.isAscending_unused {counter : UsageCounter κ} {uses : List (κ × Nat)}
    (h : Counts counter uses) : IsAscending counter.unused := by
  have hsub : counter.unused.Sublist (counter.counts.map Prod.fst) :=
    List.filter_sublist.map Prod.fst
  exact List.Pairwise.sublist hsub h.table

variable [Std.TransOrd κ] [Std.LawfulEqOrd κ]

theorem Counts.recordMany {counter : UsageCounter κ} {uses : List (κ × Nat)}
    (h : Counts counter uses) (key : κ) (n : Nat) :
    Counts (counter.recordMany key n) (uses ++ [(key, n)]) := by
  refine ⟨isTable_alter h.table _ _, ?_, ?_⟩
  · intro k
    rw [List.map_append, List.mem_append, not_or, ← h.declared]
    by_cases hk : k = key
    · rw [UsageCounter.recordMany, hk, find?_alter_self h.table]
      simp
    · rw [UsageCounter.recordMany, find?_alter_of_ne h.table hk]
      simp [hk]
  · intro k total hfind
    simp only [List.mem_append, List.mem_singleton, Prod.mk.injEq]
    by_cases hk : k = key
    · subst hk
      rw [UsageCounter.recordMany, find?_alter_self h.table] at hfind
      obtain rfl := Option.some.inj hfind
      -- The sum is 0 if the new number is, and the old sum was.
      cases hold : find? k counter.counts with
      | none =>
          have hnot := (h.declared k).mp hold
          have hmem : ∀ m, (k, m) ∉ uses := fun m hm => hnot (List.mem_map_of_mem hm)
          simp [hmem]
      | some old =>
          have hzero := h.zero_iff k old hold
          rw [Option.getD_some, Nat.add_eq_zero_iff, hzero]
          refine ⟨?_, ?_⟩
          · intro hboth m hm
            obtain ⟨hall, hn⟩ := hboth
            rcases hm with hm | hm
            · exact hall m hm
            · rw [hm.2, hn]
          · intro hall
            exact ⟨fun m hm => hall m (Or.inl hm), hall n (Or.inr ⟨rfl, rfl⟩)⟩
    · rw [UsageCounter.recordMany, find?_alter_of_ne h.table hk] at hfind
      rw [h.zero_iff k total hfind]
      simp [hk]

theorem counts_foldl (uses : List (κ × Nat)) :
    Counts (uses.foldl (fun counter use => counter.recordMany use.1 use.2) {}) uses := by
  have hfold : ∀ (more seen : List (κ × Nat)) (counter : UsageCounter κ), Counts counter seen →
      Counts (more.foldl (fun counter use => counter.recordMany use.1 use.2) counter)
        (seen ++ more) := by
    intro more
    induction more with
    | nil =>
        intro seen counter h
        rw [List.append_nil]
        exact h
    | cons use more ih =>
        intro seen counter h
        rw [List.append_cons]
        exact ih _ _ (h.recordMany use.1 use.2)
  exact hfold uses [] {} counts_empty

theorem Counts.mem_unused {counter : UsageCounter κ} {uses : List (κ × Nat)}
    (h : Counts counter uses) {key : κ} :
    key ∈ counter.unused ↔ key ∈ uses.map Prod.fst ∧ ∀ m, (key, m) ∈ uses → m = 0 := by
  unfold unused
  simp only [List.mem_map, List.mem_filter, beq_iff_eq]
  refine ⟨?_, ?_⟩
  · rintro ⟨⟨k, n⟩, ⟨hmem, hn⟩, hk⟩
    obtain rfl : k = key := hk
    have hfind := (find?_eq_some_iff h.table).mpr hmem
    refine ⟨?_, (h.zero_iff k n hfind).mp hn⟩
    by_contra hnot
    have hnone := (h.declared k).mpr fun hc => hnot (List.mem_map.mp hc)
    exact absurd (hnone.symm.trans hfind) (Option.some_ne_none n).symm
  · rintro ⟨hdeclared, hall⟩
    cases hfind : find? key counter.counts with
    | none => exact absurd (List.mem_map.mpr hdeclared) ((h.declared key).mp hfind)
    | some n =>
        exact ⟨(key, n), ⟨(find?_eq_some_iff h.table).mp hfind,
          (h.zero_iff key n hfind).mpr hall⟩, rfl⟩

/-! ### Declarations first, uses later -/

theorem counts_declare_record (declared used : List κ) :
    Counts (used.foldl UsageCounter.record (declared.foldl UsageCounter.declare {}))
      (declared.map (·, 0) ++ used.map (·, 1)) := by
  have h := counts_foldl (declared.map (·, 0) ++ used.map (·, 1))
  rw [List.foldl_append, List.foldl_map, List.foldl_map] at h
  exact h

theorem mem_unused_declare_record {declared used : List κ} {key : κ} :
    key ∈ (used.foldl UsageCounter.record (declared.foldl UsageCounter.declare {})).unused ↔
      key ∈ declared ∧ key ∉ used := by
  rw [(counts_declare_record declared used).mem_unused]
  simp only [List.mem_map, List.mem_append, Prod.mk.injEq]
  refine ⟨?_, ?_⟩
  · rintro ⟨⟨entry, hmem, rfl⟩, hzero⟩
    have hnot : entry.1 ∉ used :=
      fun hc => absurd (hzero 1 (Or.inr ⟨entry.1, hc, rfl, rfl⟩)) (by omega)
    refine ⟨?_, hnot⟩
    rcases hmem with ⟨k, hk, rfl⟩ | ⟨k, hk, rfl⟩
    · exact hk
    · exact absurd hk hnot
  · rintro ⟨hdeclared, hnot⟩
    refine ⟨⟨(key, 0), Or.inl ⟨key, hdeclared, rfl⟩, rfl⟩, ?_⟩
    intro m hor
    rcases hor with ⟨k, -, -, hm⟩ | ⟨k, hk, rfl, -⟩
    · exact hm.symm
    · exact absurd hk hnot

end PackageAudit.UsageCounter
