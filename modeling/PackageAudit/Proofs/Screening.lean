/-
Whole runs of an ignore filter.

A filter sees one list of items after the other, of one kind or of several, and each time it is
told anew what it means that a pattern takes in an item.  One step is known: what is kept depends
on the entries alone, and the keys that have been of use grow by those that took in something.
By induction a run keeps of every list what no pattern takes in, and what it reports in the end
are the keys that took in nothing from first to last.

Patterns are told apart by key only, so the report speaks of patterns if those with the same
text take in the same items.  Patterns that were read from texts do: a pattern is what its text
says, wherever white space stood around it.
-/
import Mathlib.Data.List.TakeWhile
import PackageAudit.Proofs.Ignore

namespace PackageAudit

open Ascending

/-! ### Texts of patterns -/

namespace Text

variable {text before after : List Char}

theorem trim_append_left (h : ∀ c ∈ before, isWhite c = true) :
    trim (before ++ text) = trim text := by
  rw [trim, trim, List.dropWhile_append_of_pos h]

theorem trim_append_right (h : ∀ c ∈ after, isWhite c = true) :
    trim (text ++ after) = trim text := by
  have hafter : ∀ c ∈ after.reverse, isWhite c = true := fun c hc => h c (List.mem_reverse.mp hc)
  rw [trim, trim, List.dropWhile_append]
  split
  · next hempty => rw [List.dropWhile_eq_nil_iff.mpr h, List.isEmpty_iff.mp hempty]
  · rw [List.reverse_append, List.dropWhile_append_of_pos hafter]

/-- A text is what is left after trimming, with white space around it. -/
theorem exists_trim_around (text : List Char) : ∃ before after,
    text = before ++ (trim text ++ after) ∧ (∀ c ∈ before, isWhite c = true)
      ∧ ∀ c ∈ after, isWhite c = true := by
  refine ⟨text.takeWhile isWhite, ((text.dropWhile isWhite).reverse.takeWhile isWhite).reverse,
    ?_, fun c hc => List.mem_takeWhile_imp hc,
    fun c hc => List.mem_takeWhile_imp (List.mem_reverse.mp hc)⟩
  rw [trim, ← List.reverse_append, List.takeWhile_append_dropWhile, List.reverse_reverse,
    List.takeWhile_append_dropWhile]

theorem trim_trim (text : List Char) : trim (trim text) = trim text := by
  obtain ⟨before, after, htext, hbefore, hafter⟩ := exists_trim_around text
  conv_rhs => rw [htext, trim_append_left hbefore, trim_append_right hafter]

end Text

namespace IgnorePattern

/-! An arrow is cut at wherever white space stands around the text: neither of its two characters
is white, so it cannot begin or end there. -/

theorem splitArrow_cons {c : Char} {rest : List Char}
    (h : ∀ more, c = '-' → rest ≠ '>' :: more) :
    splitArrow (c :: rest) = (splitArrow rest).map fun sides => (c :: sides.1, sides.2) := by
  rw [splitArrow]
  exact h

theorem splitArrow_append_left {before : List Char} (hdash : '-' ∉ before) (text : List Char) :
    splitArrow (before ++ text)
      = (splitArrow text).map fun sides => (before ++ sides.1, sides.2) := by
  induction before with
  | nil => simp
  | cons c before ih =>
      obtain ⟨hc, hrest⟩ := List.ne_and_not_mem_of_not_mem_cons hdash
      rw [List.cons_append, splitArrow_cons fun _ hdash _ => hc hdash.symm, ih hrest,
        Option.map_map]
      rfl

theorem splitArrow_append_right {after : List Char} (hdash : '-' ∉ after) (hhead : '>' ∉ after)
    (text : List Char) : splitArrow (text ++ after)
      = (splitArrow text).map fun sides => (sides.1, sides.2 ++ after) := by
  induction text with
  | nil =>
      have hnone := splitArrow_append_left hdash []
      rwa [List.append_nil] at hnone
  | cons c rest ih =>
      by_cases harrow : c = '-' ∧ ∃ more, rest = '>' :: more
      · obtain ⟨rfl, more, rfl⟩ := harrow
        rfl
      · have hnot : ∀ more, c = '-' → rest ≠ '>' :: more :=
          fun more hc heq => harrow ⟨hc, more, heq⟩
        have hmore : ∀ more, c = '-' → rest ++ after ≠ '>' :: more := by
          intro more hc heq
          cases rest with
          | nil =>
              rw [List.nil_append] at heq
              exact hhead (heq ▸ List.mem_cons_self)
          | cons next rest =>
              obtain ⟨rfl, -⟩ := List.cons.inj heq
              exact hnot rest hc rfl
        rw [List.cons_append, splitArrow_cons hmore, splitArrow_cons hnot, ih, Option.map_map,
          Option.map_map]
        rfl

/-- The texts of the locations of a pattern: where it starts, and where it leads to if it has an
arrow. -/
def sides (text : List Char) : List Char × Option (List Char) :=
  match splitArrow text with
  | none => (Text.trim text, none)
  | some (before, after) => (Text.trim before, some (Text.trim after))

theorem sides_trim (text : List Char) : sides (Text.trim text) = sides text := by
  obtain ⟨before, after, htext, hbefore, hafter⟩ := Text.exists_trim_around text
  have hsplit : splitArrow text = (splitArrow (Text.trim text)).map fun sides =>
      (before ++ sides.1, sides.2 ++ after) := by
    have hdash : Text.isWhite '-' = false := by decide
    have hhead : Text.isWhite '>' = false := by decide
    conv_lhs => rw [htext]
    rw [splitArrow_append_left fun hc => Bool.false_ne_true (hdash.symm.trans (hbefore _ hc)),
      splitArrow_append_right (fun hc => Bool.false_ne_true (hdash.symm.trans (hafter _ hc)))
        fun hc => Bool.false_ne_true (hhead.symm.trans (hafter _ hc)), Option.map_map]
    rfl
  unfold sides
  rw [hsplit]
  cases splitArrow (Text.trim text) with
  | none => rw [Option.map_none, Text.trim_trim]
  | some cut =>
      rw [Option.map_some]
      show _ = (Text.trim (before ++ cut.1), some (Text.trim (cut.2 ++ after)))
      rw [Text.trim_append_left hbefore, Text.trim_append_right hafter]

theorem parse_eq_ok_iff {written : String} {pattern : IgnorePattern} :
    parse written = .ok pattern ↔ pattern.text = String.ofList (Text.trim written.toList)
      ∧ LocationPattern.ofTrimmed (sides written.toList).1 = .ok pattern.source
      ∧ (sides written.toList).2.mapM LocationPattern.ofTrimmed = .ok pattern.target := by
  obtain ⟨text, source, target⟩ := pattern
  unfold parse sides
  cases splitArrow written.toList with
  | none =>
      simp only [parseSide, LocationPattern.parse, Option.mapM_none]
      cases LocationPattern.ofTrimmed (Text.trim written.toList) with
      | error cause => simp [bind, Except.bind]
      | ok location => simp [bind, Except.bind, pure, Except.pure, eq_comm]
  | some cut =>
      obtain ⟨before, after⟩ := cut
      simp only [parseSide, LocationPattern.parse, String.toList_ofList, Option.mapM_some]
      cases LocationPattern.ofTrimmed (Text.trim before) with
      | error cause => simp [bind, Except.bind]
      | ok location =>
          cases LocationPattern.ofTrimmed (Text.trim after) with
          | error cause => simp [bind, Except.bind, Functor.map, Except.map]
          | ok other =>
              simp [bind, Except.bind, pure, Except.pure, Functor.map, Except.map, eq_comm]

/-- A pattern that is read is told by its text. -/
theorem eq_of_parse_of_text_eq {written written' : String} {pattern pattern' : IgnorePattern}
    (h : parse written = .ok pattern) (h' : parse written' = .ok pattern')
    (htext : pattern.text = pattern'.text) : pattern = pattern' := by
  obtain ⟨hwritten, hsource, htarget⟩ := parse_eq_ok_iff.mp h
  obtain ⟨hwritten', hsource', htarget'⟩ := parse_eq_ok_iff.mp h'
  have htrim : Text.trim written.toList = Text.trim written'.toList := by
    rw [← String.ofList_inj, ← hwritten, ← hwritten', htext]
  rw [← sides_trim, htrim, sides_trim] at hsource htarget
  cases pattern
  cases pattern'
  simp_all

end IgnorePattern

/-! ### Runs -/

/-- Items of some kind that are handed to a filter, with what it means that a pattern takes in one
of them. -/
structure Screening where
  Item : Type
  covers : IgnorePattern → Item → Bool
  items : List Item

/-- What a filter hands back: the items that it keeps, and how many it does not. -/
structure Screened where
  Item : Type
  kept : List Item
  ignored : Nat

namespace Screening

/-- Whether patterns of some entries that have the same text take in the same items. -/
def IsTextual (screening : Screening) (entries : List IgnoreEntry) : Prop :=
  ∀ pattern ∈ entries.flatMap IgnoreEntry.patterns,
    ∀ other ∈ entries.flatMap IgnoreEntry.patterns,
      pattern.text = other.text → screening.covers pattern = screening.covers other

/-- What is to be handed back: in their order the items that no pattern takes in, and the number of
the others. -/
def outcome (entries : List IgnoreEntry) (screening : Screening) : Screened where
  Item := screening.Item
  kept := IgnoreEntry.leave entries screening.covers screening.items
  ignored := screening.items.countP (IgnoreEntry.suppress entries screening.covers)

theorem length_outcome (entries : List IgnoreEntry) (screening : Screening) :
    (screening.outcome entries).kept.length + (screening.outcome entries).ignored
      = screening.items.length := by
  rw [List.length_eq_countP_add_countP (IgnoreEntry.suppress entries screening.covers)]
  simp [outcome, IgnoreEntry.leave, List.countP_eq_length_filter, Nat.add_comm]

/-- Entries that were read from texts satisfy the condition, whatever is asked of them. -/
theorem isTextual_of_read {entries : List IgnoreEntry}
    (h : ∀ pattern ∈ entries.flatMap IgnoreEntry.patterns,
      ∃ written, IgnorePattern.parse written = .ok pattern) (screening : Screening) :
    screening.IsTextual entries := by
  intro pattern hpattern other hother htext
  obtain ⟨written, hread⟩ := h pattern hpattern
  obtain ⟨written', hread'⟩ := h other hother
  rw [IgnorePattern.eq_of_parse_of_text_eq hread hread' htext]

end Screening

/-- The order of keys: by reason, then by the text of the pattern. -/
def IgnoreKey.Precedes (a b : IgnoreKey) : Prop :=
  a.because < b.because ∨ a.because = b.because ∧ a.pattern < b.pattern

theorem IgnoreKey.compare_lt {a b : IgnoreKey} : compare a b = .lt ↔ a.Precedes b := by
  show (compare a.because b.because).then (compare a.pattern b.pattern) = .lt ↔ _
  rw [Ordering.then_eq_lt, compare_string_lt, compare_string_lt,
    Std.LawfulEqOrd.compare_eq_iff_eq]
  rfl

namespace IgnoreFilter

/-- Hands lists of items to a filter, one after the other. -/
def screen (filter : IgnoreFilter) : List Screening → List Screened × IgnoreFilter
  | [] => ([], filter)
  | screening :: rest =>
    let result := filter.retain screening.covers screening.items
    let later := screen result.2 rest
    (⟨screening.Item, result.1.1, result.1.2⟩ :: later.1, later.2)

/-- What a run hands back, and which keys have been of use when it ends. -/
theorem HasUsed.screen {filter : IgnoreFilter} {entries : List IgnoreEntry}
    {used : IgnoreKey → Prop} (h : filter.HasUsed entries used) (screenings : List Screening) :
    (filter.screen screenings).1 = screenings.map (Screening.outcome entries)
      ∧ (filter.screen screenings).2.HasUsed entries fun key => used key
        ∨ ∃ screening ∈ screenings, key.TakesIn entries screening.covers screening.items := by
  induction screenings generalizing filter used with
  | nil => exact ⟨rfl, by simpa [IgnoreFilter.screen] using h⟩
  | cons screening rest ih =>
      have hstep : (filter.retain screening.covers screening.items).2.HasUsed entries _ :=
        h.retain_snd
      obtain ⟨hresults, hused⟩ := ih hstep
      refine ⟨?_, ?_⟩
      · rw [IgnoreFilter.screen, List.map_cons, hresults, h.retain_fst]
        rfl
      · simpa only [IgnoreFilter.screen, List.mem_cons, exists_eq_or_imp, or_assoc] using hused

/-- **A run of a filter keeps what no pattern takes in and reports the patterns that took in
nothing.** -/
theorem screen_exact (entries : List IgnoreEntry) (screenings : List Screening)
    (htextual : ∀ screening ∈ screenings, screening.IsTextual entries) :
    ((ofEntries entries).screen screenings).1 = screenings.map (Screening.outcome entries) ∧
    (∀ screening ∈ screenings, (screening.outcome entries).kept.length
      + (screening.outcome entries).ignored = screening.items.length) ∧
    ((ofEntries entries).screen screenings).2.unused.Pairwise IgnoreKey.Precedes ∧
    ∀ key, key ∈ ((ofEntries entries).screen screenings).2.unused ↔
      ∃ entry ∈ entries, ∃ pattern ∈ entry.patterns, key = ⟨entry.because, pattern.text⟩ ∧
        ∀ screening ∈ screenings, ∀ item ∈ screening.items,
          screening.covers pattern item = false := by
  obtain ⟨hresults, hused⟩ := (hasUsed_ofEntries entries).screen screenings
  refine ⟨hresults, fun screening _ => screening.length_outcome entries,
    hused.isAscending_unused.imp IgnoreKey.compare_lt.mp, ?_⟩
  intro key
  rw [hused.mem_unused, false_or]
  refine ⟨?_, ?_⟩
  · rintro ⟨⟨pattern, entry, hentry, hpattern, rfl⟩, hidle⟩
    refine ⟨entry, hentry, pattern, hpattern, rfl, ?_⟩
    intro screening hscreening item hitem
    by_contra hcovers
    exact hidle ⟨screening, hscreening, item, hitem, pattern, ⟨entry, hentry, hpattern, rfl⟩,
      Bool.not_eq_false _ ▸ hcovers⟩
  · rintro ⟨entry, hentry, pattern, hpattern, rfl, hidle⟩
    refine ⟨⟨pattern, entry, hentry, hpattern, rfl⟩, ?_⟩
    -- The key may have been of use through another pattern, but that one has the same text.
    rintro ⟨screening, hscreening, item, hitem, other, ⟨entry', hentry', hother, hkey⟩, hcovers⟩
    have htext : pattern.text = other.text := (IgnoreKey.mk.inj hkey).2
    have hsame := htextual screening hscreening pattern
      (List.mem_flatMap.mpr ⟨entry, hentry, hpattern⟩) other
      (List.mem_flatMap.mpr ⟨entry', hentry', hother⟩) htext
    rw [← hsame, hidle screening hscreening item hitem] at hcovers
    exact absurd hcovers Bool.false_ne_true

/-- One pattern three times, twice for the same reason, beside one that is never met. -/
def bridgeEntries : List IgnoreEntry :=
  [⟨"legacy", [⟨"old*", .starting "old", none⟩, ⟨"nowhere", .exact "nowhere", none⟩]⟩,
    ⟨"legacy", [⟨"old*", .starting "old", none⟩]⟩,
    ⟨"bridge", [⟨"app -> old*", .exact "app", some (.starting "old")⟩,
      ⟨"old*", .starting "old", none⟩]⟩]

/-- Dependencies, then names. -/
def bridgeScreenings : List Screening :=
  [⟨String × String, fun pattern edge => pattern.coversEdge edge.1 edge.2,
      [("app", "old.api"), ("ui", "old.api"), ("app", "nowhere")]⟩,
    ⟨String, IgnorePattern.coversName, ["nowhere.else", "old.impl", "app"]⟩]

/-- The arrow is met in the first list only and the other pattern in the second, so what is left is
the one that is never met. -/
theorem bridge_screened :
    (∀ screening ∈ bridgeScreenings, screening.IsTextual bridgeEntries) ∧
    ((ofEntries bridgeEntries).screen bridgeScreenings).1
      = [⟨String × String, [("ui", "old.api"), ("app", "nowhere")], 1⟩,
        ⟨String, ["nowhere.else", "app"], 1⟩] ∧
    ⟨"legacy", "nowhere"⟩ ∈ ((ofEntries bridgeEntries).screen bridgeScreenings).2.unused ∧
    ((ofEntries bridgeEntries).screen bridgeScreenings).2.unused = [⟨"legacy", "nowhere"⟩] := by
  have hread : ∀ pattern ∈ bridgeEntries.flatMap IgnoreEntry.patterns,
      ∃ written, IgnorePattern.parse written = .ok pattern := by
    intro pattern hpattern
    refine ⟨pattern.text, ?_⟩
    revert pattern
    decide +kernel
  have htextual : ∀ screening ∈ bridgeScreenings, screening.IsTextual bridgeEntries :=
    fun screening _ => Screening.isTextual_of_read hread screening
  obtain ⟨hresults, -, -, hunused⟩ := screen_exact bridgeEntries bridgeScreenings htextual
  refine ⟨htextual, hresults.trans rfl, ?_, by decide +kernel⟩
  rw [hunused]
  refine ⟨_, List.mem_cons_self, ⟨"nowhere", .exact "nowhere", none⟩, by simp, rfl, ?_⟩
  simp only [bridgeScreenings, List.forall_mem_cons]
  refine ⟨by decide +kernel, by decide +kernel, by simp⟩

end IgnoreFilter

end PackageAudit
