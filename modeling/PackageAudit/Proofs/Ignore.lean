/-
What an ignore filter keeps, and which patterns it calls unused.

A filter is handed from one list of items to the next, and with each list it learns which of its
patterns were of use.  What it keeps of a list does not depend on what it has learned before;
what it reports in the end depends on all lists together.  So a filter is described by the
entries that it was made from and by the keys of the patterns that have been of use so far.

Patterns are told apart by their reason and their text.  Two with the same reason and the same
text have one key, and it has been of use as soon as one of them has.
-/
import PackageAudit.Ignore
import PackageAudit.Proofs.Orders
import PackageAudit.Proofs.Usage

namespace PackageAudit

open Ascending

instance : Std.TransOrd IgnoreKey :=
  inferInstanceAs (Std.TransCmp (compareLex (compareOn IgnoreKey.because)
    (compareOn IgnoreKey.pattern)))

instance : Std.LawfulEqOrd IgnoreKey where
  eq_of_compare {a b} h := by
    obtain ⟨hbecause, hpattern⟩ := compareLex_eq_eq.mp h
    cases a
    cases b
    rw [IgnoreKey.mk.injEq]
    exact ⟨Std.LawfulEqCmp.eq_of_compare hbecause, Std.LawfulEqCmp.eq_of_compare hpattern⟩

namespace IgnoreKey

/-- Whether a key stands for a pattern of some entries. -/
def IsOf (key : IgnoreKey) (entries : List IgnoreEntry) (pattern : IgnorePattern) : Prop :=
  ∃ entry ∈ entries, pattern ∈ entry.patterns ∧ key = ⟨entry.because, pattern.text⟩

/-- Whether a pattern of the key takes in one of some items. -/
def TakesIn {α : Type} (key : IgnoreKey) (entries : List IgnoreEntry)
    (covers : IgnorePattern → α → Bool) (items : List α) : Prop :=
  ∃ item ∈ items, ∃ pattern, key.IsOf entries pattern ∧ covers pattern item = true

end IgnoreKey

namespace IgnoreEntry

variable {α : Type} {entries : List IgnoreEntry} {covers : IgnorePattern → α → Bool} {item : α}

/-- Whether some pattern of some entries takes in an item. -/
def suppress (entries : List IgnoreEntry) (covers : IgnorePattern → α → Bool) (item : α) : Bool :=
  (entries.flatMap IgnoreEntry.patterns).any fun pattern => covers pattern item

/-- The items that no pattern of some entries takes in. -/
def leave (entries : List IgnoreEntry) (covers : IgnorePattern → α → Bool) (items : List α) :
    List α :=
  items.filter fun item => !suppress entries covers item

theorem suppress_iff : suppress entries covers item = true ↔
    ∃ entry ∈ entries, ∃ pattern ∈ entry.patterns, covers pattern item = true := by
  simp [suppress]

/-- With more patterns, less is left. -/
theorem leave_sublist {more : List IgnoreEntry}
    (h : entries.flatMap IgnoreEntry.patterns ⊆ more.flatMap IgnoreEntry.patterns)
    (covers : IgnorePattern → α → Bool) (items : List α) :
    (leave more covers items).Sublist (leave entries covers items) := by
  refine List.monotone_filter_right items ?_
  intro item hmore
  rw [Bool.not_eq_true', suppress, List.any_eq_false] at hmore ⊢
  intro pattern hpattern
  exact hmore pattern (h hpattern)

end IgnoreEntry

namespace IgnoreFilter

variable {α : Type} {filter : IgnoreFilter} {entries : List IgnoreEntry} {used : IgnoreKey → Prop}
  {covers : IgnorePattern → α → Bool} {items : List α} {key : IgnoreKey}

/-- A filter that was made from some entries and whose patterns with certain keys have been of
use since. -/
structure HasUsed (filter : IgnoreFilter) (entries : List IgnoreEntry) (used : IgnoreKey → Prop) :
    Prop where
  patterns_eq : filter.patterns = (ofEntries entries).patterns
  usage_eq : ∃ keys : List IgnoreKey, (∀ key, key ∈ keys ↔ used key) ∧
    filter.usage = keys.foldl UsageCounter.record (ofEntries entries).usage

theorem hasUsed_ofEntries (entries : List IgnoreEntry) :
    (ofEntries entries).HasUsed entries fun _ => False :=
  ⟨rfl, [], by simp, rfl⟩

theorem mem_patterns {pattern : IgnorePattern} :
    (key, pattern) ∈ (ofEntries entries).patterns ↔ key.IsOf entries pattern := by
  simp only [ofEntries, List.mem_flatMap, List.mem_map, Prod.mk.injEq, IgnoreKey.IsOf]
  refine exists_congr fun entry => and_congr_right fun _ => ⟨?_, ?_⟩
  · rintro ⟨other, hmem, hkey, rfl⟩
    exact ⟨hmem, hkey.symm⟩
  · rintro ⟨hmem, hkey⟩
    exact ⟨pattern, hmem, hkey.symm, rfl⟩

namespace HasUsed

variable (h : filter.HasUsed entries used)
include h

theorem mem_covering {item : α} : key ∈ filter.covering covers item ↔
    ∃ pattern, key.IsOf entries pattern ∧ covers pattern item = true := by
  unfold covering
  simp only [h.patterns_eq, List.mem_map, List.mem_filter, Prod.exists, mem_patterns]
  refine ⟨?_, ?_⟩
  · rintro ⟨_, pattern, ⟨hof, hcovers⟩, rfl⟩
    exact ⟨pattern, hof, hcovers⟩
  · rintro ⟨pattern, hof, hcovers⟩
    exact ⟨key, pattern, ⟨hof, hcovers⟩, rfl⟩

theorem isEmpty_covering (item : α) :
    (filter.covering covers item).isEmpty = !IgnoreEntry.suppress entries covers item := by
  rw [Bool.eq_iff_iff, List.isEmpty_iff, List.eq_nil_iff_forall_not_mem, Bool.not_eq_true',
    ← Bool.not_eq_true, IgnoreEntry.suppress_iff]
  simp only [h.mem_covering]
  refine ⟨?_, ?_⟩
  · rintro hnone ⟨entry, hentry, pattern, hpattern, hcovers⟩
    exact hnone _ ⟨pattern, ⟨entry, hentry, hpattern, rfl⟩, hcovers⟩
  · rintro hnone key ⟨pattern, ⟨entry, hentry, hpattern, -⟩, hcovers⟩
    exact hnone ⟨entry, hentry, pattern, hpattern, hcovers⟩

/-- The items that are kept are those that no pattern takes in, and the others are counted. -/
theorem retain_fst : (filter.retain covers items).1
    = (IgnoreEntry.leave entries covers items,
      items.countP (IgnoreEntry.suppress entries covers)) := by
  simp only [retain, IgnoreEntry.leave, h.isEmpty_covering, Bool.not_not,
    List.countP_eq_length_filter]

/-- Afterwards the patterns that take in one of the items have been of use as well. -/
theorem retain_snd : (filter.retain covers items).2.HasUsed entries
    fun key => used key ∨ key.TakesIn entries covers items := by
  obtain ⟨keys, hkeys, husage⟩ := h.usage_eq
  refine ⟨h.patterns_eq, keys ++ items.flatMap (filter.covering covers), ?_, ?_⟩
  · intro key
    rw [List.mem_append, hkeys, List.mem_flatMap]
    simp only [h.mem_covering]
    exact Iff.rfl
  · rw [List.foldl_append, ← husage]
    rfl

theorem unused_eq : ∃ keys : List IgnoreKey, (∀ key, key ∈ keys ↔ used key) ∧
    filter.unused = (keys.foldl UsageCounter.record
      (((ofEntries entries).patterns.map Prod.fst).foldl UsageCounter.declare {})).unused := by
  obtain ⟨keys, hkeys, husage⟩ := h.usage_eq
  refine ⟨keys, hkeys, ?_⟩
  rw [unused, husage, List.foldl_map]
  rfl

theorem isAscending_unused : IsAscending filter.unused := by
  obtain ⟨keys, -, hunused⟩ := h.unused_eq
  rw [hunused]
  exact (UsageCounter.counts_declare_record _ _).isAscending_unused

/-- What is reported are the keys that stand for a pattern and have been of no use. -/
theorem mem_unused : key ∈ filter.unused ↔
    (∃ pattern, key.IsOf entries pattern) ∧ ¬used key := by
  obtain ⟨keys, hkeys, hunused⟩ := h.unused_eq
  rw [hunused, UsageCounter.mem_unused_declare_record, hkeys]
  refine and_congr_left fun _ => ?_
  simp only [List.mem_map, Prod.exists, mem_patterns]
  refine ⟨?_, ?_⟩
  · rintro ⟨_, pattern, hof, rfl⟩
    exact ⟨pattern, hof⟩
  · rintro ⟨pattern, hof⟩
    exact ⟨key, pattern, hof, rfl⟩

end HasUsed

end IgnoreFilter

end PackageAudit
