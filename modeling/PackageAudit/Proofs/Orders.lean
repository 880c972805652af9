/-
The orders that tables and reports are sorted by.

Sets, tables and sorted lists mean what they should only if the order of their members is
one: transitive, and with nothing equal but the same.  Here that is shown for references to
packages and classes, which are ordered as positions are, and for what is made of them.
-/
import Mathlib.Data.List.Basic
import PackageAudit.Rules.Evaluation

namespace PackageAudit

theorem compare_string_lt {a b : String} : compare a b = .lt ↔ a < b :=
  compareOfLessAndEq_eq_lt

/-- An order by one field is an order if the field tells values apart. -/
theorem lawfulEqCmp_compareOn {α β : Type} [Ord β] [Std.LawfulEqOrd β] {f : α → β}
    (hf : ∀ a b, f a = f b → a = b) : Std.LawfulEqCmp (compareOn f) where
  compare_self := Std.ReflCmp.compare_self
  eq_of_compare h := hf _ _ (Std.LawfulEqCmp.eq_of_compare h)

/-! ### References -/

instance : Std.TransOrd PackageId := inferInstanceAs (Std.TransCmp (compareOn PackageId.index))

instance : Std.LawfulEqOrd PackageId :=
  lawfulEqCmp_compareOn fun a b h => by cases a; cases b; exact congrArg PackageId.mk h

instance : Std.TransOrd ClassId := inferInstanceAs (Std.TransCmp (compareOn ClassId.index))

instance : Std.LawfulEqOrd ClassId :=
  lawfulEqCmp_compareOn fun a b h => by cases a; cases b; exact congrArg ClassId.mk h

theorem PackageId.compare_lt {a b : PackageId} : compare a b = .lt ↔ a.position < b.position :=
  (compareOfLessAndEq_eq_lt).trans UInt32.lt_iff_toNat_lt

theorem ClassId.compare_lt {a b : ClassId} : compare a b = .lt ↔ a.position < b.position :=
  (compareOfLessAndEq_eq_lt).trans UInt32.lt_iff_toNat_lt

theorem PackageId.position_le (a : PackageId) : a.position ≤ greatestPosition :=
  Nat.le_of_lt_succ a.index.toNat_lt

theorem PackageId.position_ofPosition (n : Nat) :
    (PackageId.ofPosition n).position = min n greatestPosition := by
  unfold PackageId.ofPosition PackageId.position
  exact UInt32.toNat_ofNat_of_lt' (Nat.lt_succ_of_le (Nat.min_le_right _ _))

theorem ClassId.position_ofPosition (n : Nat) :
    (ClassId.ofPosition n).position = min n greatestPosition := by
  unfold ClassId.ofPosition ClassId.position
  exact UInt32.toNat_ofNat_of_lt' (Nat.lt_succ_of_le (Nat.min_le_right _ _))

theorem PackageId.ext_position {a b : PackageId} (h : a.position = b.position) : a = b := by
  cases a
  cases b
  exact congrArg PackageId.mk (UInt32.toNat_inj.mp h)

theorem ClassId.ext_position {a b : ClassId} (h : a.position = b.position) : a = b := by
  cases a
  cases b
  exact congrArg ClassId.mk (UInt32.toNat_inj.mp h)

theorem PackageId.ofPosition_position (a : PackageId) : PackageId.ofPosition a.position = a := by
  apply PackageId.ext_position
  rw [PackageId.position_ofPosition]
  exact Nat.min_eq_left a.position_le

theorem ClassId.position_le (a : ClassId) : a.position ≤ greatestPosition :=
  Nat.le_of_lt_succ a.index.toNat_lt

theorem ClassId.ofPosition_position (a : ClassId) : ClassId.ofPosition a.position = a := by
  apply ClassId.ext_position
  rw [ClassId.position_ofPosition]
  exact Nat.min_eq_left a.position_le

/-! ### Dependencies and violations -/

instance : Std.TransOrd PackageEdge :=
  inferInstanceAs (Std.TransCmp (compareLex (compareOn PackageEdge.source)
    (compareOn PackageEdge.target)))

instance : Std.LawfulEqOrd PackageEdge where
  eq_of_compare {a b} h := by
    obtain ⟨hsource, htarget⟩ := compareLex_eq_eq.mp h
    cases a
    cases b
    simp only [PackageEdge.mk.injEq]
    exact ⟨Std.LawfulEqCmp.eq_of_compare hsource, Std.LawfulEqCmp.eq_of_compare htarget⟩

theorem PackageEdge.compare_lt {e f : PackageEdge} : compare e f = .lt ↔
    compare e.source f.source = .lt
      ∨ e.source = f.source ∧ compare e.target f.target = .lt := by
  show (compare e.source f.source).then (compare e.target f.target) = .lt ↔ _
  rw [Ordering.then_eq_lt, Std.LawfulEqOrd.compare_eq_iff_eq]

instance : Std.TransOrd ViolationKind :=
  inferInstanceAs (Std.TransCmp (compareOn ViolationKind.rank))

instance : Std.LawfulEqOrd ViolationKind :=
  lawfulEqCmp_compareOn fun a b h => by
    cases a with
    | disallowed =>
        cases b with
        | disallowed => rfl
        | missingMandatory => exact absurd h (by decide)
    | missingMandatory =>
        cases b with
        | disallowed => exact absurd h (by decide)
        | missingMandatory => rfl

instance : Std.TransOrd RuleViolation :=
  inferInstanceAs (Std.TransCmp (compareLex (compareOn RuleViolation.source)
    (compareLex (compareOn RuleViolation.target)
      (compareLex (compareOn RuleViolation.kind) (compareOn RuleViolation.vias)))))

instance : Std.LawfulEqOrd RuleViolation where
  eq_of_compare {a b} h := by
    obtain ⟨hsource, h⟩ := compareLex_eq_eq.mp h
    obtain ⟨htarget, h⟩ := compareLex_eq_eq.mp h
    obtain ⟨hkind, hvias⟩ := compareLex_eq_eq.mp h
    cases a
    cases b
    simp only [RuleViolation.mk.injEq]
    exact ⟨Std.LawfulEqCmp.eq_of_compare hsource, Std.LawfulEqCmp.eq_of_compare htarget,
      Std.LawfulEqCmp.eq_of_compare hkind, Std.LawfulEqCmp.eq_of_compare hvias⟩

theorem RuleViolation.names_le_of_compare_lt {v w : RuleViolation} (h : compare v w = .lt) :
    v.source < w.source
      ∨ v.source = w.source ∧ (v.target < w.target ∨ v.target = w.target) := by
  replace h : (compare v.source w.source).then ((compare v.target w.target).then
      ((compare v.kind w.kind).then (compare v.vias w.vias))) = .lt := h
  rw [Ordering.then_eq_lt, Ordering.then_eq_lt, compare_string_lt, compare_string_lt,
    Std.LawfulEqOrd.compare_eq_iff_eq, Std.LawfulEqOrd.compare_eq_iff_eq] at h
  rcases h with hsource | ⟨hsource, htarget | ⟨htarget, -⟩⟩
  · exact Or.inl hsource
  · exact Or.inr ⟨hsource, Or.inl htarget⟩
  · exact Or.inr ⟨hsource, Or.inr htarget⟩

/-! ### Declarations -/

instance : Std.TransOrd RelationKind := inferInstanceAs (Std.TransCmp (compareOn RelationKind.rank))

instance : Std.LawfulEqOrd RelationKind :=
  lawfulEqCmp_compareOn fun a b h => by
    obtain ⟨direction, modality⟩ := a
    obtain ⟨direction', modality'⟩ := b
    cases direction <;> cases modality <;> cases direction' <;> cases modality' <;>
      simp_all [RelationKind.rank]

instance : Std.TransOrd UnusedRule :=
  inferInstanceAs (Std.TransCmp (compareLex (compareOn UnusedRule.rule)
    (compareLex (compareOn UnusedRule.relation) (compareOn UnusedRule.pattern))))

instance : Std.LawfulEqOrd UnusedRule where
  eq_of_compare {a b} h := by
    obtain ⟨hrule, h⟩ := compareLex_eq_eq.mp h
    obtain ⟨hrelation, hpattern⟩ := compareLex_eq_eq.mp h
    cases a
    cases b
    simp only [UnusedRule.mk.injEq]
    exact ⟨Std.LawfulEqCmp.eq_of_compare hrule, Std.LawfulEqCmp.eq_of_compare hrelation,
      Std.LawfulEqCmp.eq_of_compare hpattern⟩

/-! ### Sorting -/

theorem pairwise_isLE_mergeSort {α : Type} (cmp : α → α → Ordering) [Std.TransCmp cmp]
    (items : List α) : (items.mergeSort fun a b => (cmp a b).isLE).Pairwise
      fun a b => (cmp a b).isLE = true :=
  List.pairwise_mergeSort (fun _ _ _ => Std.TransCmp.isLE_trans) (fun a b => by
    cases h : cmp a b <;> simp [@Std.OrientedCmp.eq_swap _ cmp _ b, h]) items

/-- Sorting by a key sorts strictly if no two items have the same key. -/
theorem pairwise_lt_mergeSort {α β : Type} [Ord β] [Std.TransOrd β] [Std.LawfulEqOrd β]
    (key : α → β) {items : List α} (hne : items.Pairwise fun a b => key a ≠ key b) :
    (items.mergeSort fun a b => (compare (key a) (key b)).isLE).Pairwise
      fun a b => compare (key a) (key b) = .lt := by
  have hle : (items.mergeSort fun a b => (compare (key a) (key b)).isLE).Pairwise
      fun a b => (compare (key a) (key b)).isLE = true :=
    pairwise_isLE_mergeSort (compareOn key) items
  have hkeys : (items.mergeSort fun a b => (compare (key a) (key b)).isLE).Pairwise
      fun a b => key a ≠ key b :=
    ((List.mergeSort_perm items _).pairwise_iff Ne.symm).mpr hne
  refine (List.Pairwise.and hle hkeys).imp ?_
  intro a b hboth
  obtain ⟨hab, hne⟩ := hboth
  cases h : compare (key a) (key b) with
  | lt => rfl
  | eq => exact absurd (Std.LawfulEqCmp.eq_of_compare h) hne
  | gt => simp [h] at hab

theorem pairwise_lt_mergeSort_nat {items : List Nat} (hnodup : items.Nodup) :
    items.mergeSort.Pairwise (· < ·) := by
  have hle : items.mergeSort.Pairwise fun a b => decide (a ≤ b) = true :=
    List.pairwise_mergeSort (fun a b c => by simpa using Nat.le_trans) (fun a b => by
      simpa using Nat.le_total a b) items
  have hne : items.mergeSort.Nodup := (List.mergeSort_perm items _).nodup_iff.mpr hnodup
  refine (List.Pairwise.and hle hne).imp ?_
  intro a b hboth
  obtain ⟨hab, hne⟩ := hboth
  exact Nat.lt_of_le_of_ne (of_decide_eq_true hab) hne

end PackageAudit
