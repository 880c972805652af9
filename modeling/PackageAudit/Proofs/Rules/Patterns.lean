/-
Which packages a pattern takes in, and which patterns take in which.

A pattern is read from a text, and its text says by itself which packages it stands for.  One
pattern takes in another if it stands for every package that the other stands for.  That speaks
of infinitely many packages, but it can be told from the two patterns alone: a few packages of
the narrow one decide it, namely the shortest and one with a letter more.

So far as patterns are read from texts, a pattern is never less specific than one that takes it
in.  It would not be so for a pattern with an empty stem, which stands for all packages without
saying so; such a stem cannot be written, since an asterisk alone is read as the pattern for
every package.
-/
import Mathlib.Data.List.Basic
import PackageAudit.Pattern

namespace PackageAudit

theorem startsWith_iff_exists {text stem : String} :
    startsWith text stem = true ↔ ∃ rest, text = stem ++ rest := by
  rw [startsWith, List.isPrefixOf_iff_prefix]
  refine ⟨?_, ?_⟩
  · rintro ⟨rest, hrest⟩
    refine ⟨String.ofList rest, String.toList_inj.mp ?_⟩
    rw [String.toList_append, String.toList_ofList, hrest]
  · rintro ⟨rest, rfl⟩
    rw [String.toList_append]
    exact List.prefix_append _ _

namespace PackagePattern

/-! ### The forms of a text -/

/-- Which pattern a text without white space at its ends is read as. -/
inductive Spells : List Char → PackagePattern → Prop where
  | exact {text : List Char} (hne : text ≠ []) (hplain : '*' ∉ text) :
    Spells text (.exact (String.ofList text))
  | every : Spells ['*'] .every
  | below {base : List Char} (hplain : '*' ∉ base) :
    Spells (base ++ ['.', '*']) (.below (String.ofList base))
  | starting {stem : List Char} (hne : stem ≠ []) (hplain : '*' ∉ stem)
    (hdot : stem.getLast? ≠ some '.') : Spells (stem ++ ['*']) (.starting (String.ofList stem))

theorem ofTrimmed_concat_asterisk (stem : List Char) :
    ofTrimmed (stem ++ ['*']) =
      if '*' ∈ stem then .error (.misplacedWildcard (String.ofList (stem ++ ['*'])))
      else if stem = [] then .ok .every
      else if stem.getLast? = some '.' then .ok (.below (String.ofList stem.dropLast))
      else .ok (.starting (String.ofList stem)) := by
  simp [ofTrimmed]

theorem ofTrimmed_of_getLast?_ne {text : List Char} (h : text.getLast? ≠ some '*') :
    ofTrimmed text =
      if text = [] then .error .empty
      else if '*' ∈ text then .error (.misplacedWildcard (String.ofList text))
      else .ok (.exact (String.ofList text)) := by
  simp [ofTrimmed, h]

theorem ofTrimmed_of_spells {text : List Char} {pattern : PackagePattern}
    (h : Spells text pattern) : ofTrimmed text = .ok pattern := by
  cases h with
  | exact hne hplain =>
      have hlast : text.getLast? ≠ some '*' := fun hc => hplain (List.mem_of_getLast? hc)
      rw [ofTrimmed_of_getLast?_ne hlast, if_neg hne, if_neg hplain]
  | every => rfl
  | @below base hplain =>
      have hstem : '*' ∉ base ++ ['.'] := by simp [hplain]
      rw [show base ++ ['.', '*'] = (base ++ ['.']) ++ ['*'] by simp,
        ofTrimmed_concat_asterisk, if_neg hstem, if_neg (by simp), if_pos (by simp),
        List.dropLast_concat]
  | starting hne hplain hdot =>
      rw [ofTrimmed_concat_asterisk, if_neg hplain, if_neg hne, if_neg hdot]

theorem spells_of_ofTrimmed {text : List Char} {pattern : PackagePattern}
    (h : ofTrimmed text = .ok pattern) : Spells text pattern := by
  by_cases hlast : text.getLast? = some '*'
  · obtain ⟨stem, rfl⟩ : ∃ stem, text = stem ++ ['*'] :=
      ⟨text.dropLast, (List.dropLast_append_getLast? _ hlast).symm⟩
    rw [ofTrimmed_concat_asterisk] at h
    by_cases hplain : '*' ∈ stem
    · rw [if_pos hplain] at h
      cases h
    · rw [if_neg hplain] at h
      by_cases hne : stem = []
      · rw [if_pos hne] at h
        cases h
        rw [hne]
        exact .every
      · rw [if_neg hne] at h
        by_cases hdot : stem.getLast? = some '.'
        · obtain ⟨base, rfl⟩ : ∃ base, stem = base ++ ['.'] :=
            ⟨stem.dropLast, (List.dropLast_append_getLast? _ hdot).symm⟩
          rw [if_pos hdot, List.dropLast_concat] at h
          cases h
          rw [List.append_assoc]
          exact .below fun hc => hplain (List.mem_append_left _ hc)
        · rw [if_neg hdot] at h
          cases h
          exact .starting hne hplain hdot
  · rw [ofTrimmed_of_getLast?_ne hlast] at h
    by_cases hne : text = []
    · rw [if_pos hne] at h
      cases h
    · rw [if_neg hne] at h
      by_cases hplain : '*' ∈ text
      · rw [if_pos hplain] at h
        cases h
      · rw [if_neg hplain] at h
        cases h
        exact .exact hne hplain

theorem parse_eq_ok_iff_spells {text : String} {pattern : PackagePattern} :
    parse text = .ok pattern ↔ Spells (Text.trim text.toList) pattern :=
  ⟨spells_of_ofTrimmed, ofTrimmed_of_spells⟩

/-! ### What a text stands for -/

/-- Whether a text stands for a package: a text without asterisk for the package of that name, an
asterisk alone for every package, `base.*` for the base and what is below it, and any other text
with an asterisk at its end for the packages whose names start so. -/
def Denotes (text package : String) : Prop :=
  ('*' ∉ text.toList ∧ package = text)
    ∨ text = "*"
    ∨ (∃ base, text = base ++ ".*" ∧ (package = base ∨ ∃ rest, package = base ++ "." ++ rest))
    ∨ ∃ stem, text = stem ++ "*" ∧ stem.toList.getLast? ≠ some '.' ∧ ∃ rest, package = stem ++ rest

theorem covers_exact {name package : String} :
    (exact name).covers package = true ↔ package = name :=
  beq_iff_eq

theorem covers_below {base package : String} :
    (below base).covers package = true ↔
      package = base ∨ ∃ rest, package = base ++ "." ++ rest := by
  rw [covers, Bool.or_eq_true, beq_iff_eq, startsWith_iff_exists]

theorem covers_starting {stem package : String} :
    (starting stem).covers package = true ↔ ∃ rest, package = stem ++ rest :=
  startsWith_iff_exists

theorem denotes_of_plain {text package : String} (hplain : '*' ∉ text.toList) :
    Denotes text package ↔ package = text := by
  refine ⟨?_, fun h => Or.inl ⟨hplain, h⟩⟩
  rintro (⟨-, h⟩ | rfl | ⟨base, rfl, -⟩ | ⟨stem, rfl, -⟩)
  · exact h
  all_goals exact absurd hplain (by simp)

/-- An asterisk behind a base and a dot stands behind a stem that ends in a dot. -/
theorem append_dotAsterisk (base : String) : base ++ ".*" = base ++ "." ++ "*" := by
  rw [String.append_assoc]
  rfl

theorem denotes_below {base package : String} :
    Denotes (base ++ ".*") package ↔ package = base ∨ ∃ rest, package = base ++ "." ++ rest := by
  refine ⟨?_, fun h => Or.inr (Or.inr (Or.inl ⟨base, rfl, h⟩))⟩
  rintro (⟨hplain, -⟩ | heq | ⟨other, heq, h⟩ | ⟨stem, heq, hdot, -⟩)
  · exact absurd hplain (by simp)
  · rw [append_dotAsterisk] at heq
    have hdot := (String.append_left_inj _).mp (heq.trans String.empty_append.symm)
    simp at hdot
  · rwa [(String.append_left_inj _).mp heq]
  · rw [append_dotAsterisk, String.append_left_inj] at heq
    exact absurd (by simp [← heq]) hdot

theorem denotes_starting {stem package : String} (hne : stem ≠ "")
    (hdot : stem.toList.getLast? ≠ some '.') :
    Denotes (stem ++ "*") package ↔ ∃ rest, package = stem ++ rest := by
  refine ⟨?_, fun h => Or.inr (Or.inr (Or.inr ⟨stem, rfl, hdot, h⟩))⟩
  rintro (⟨hplain, -⟩ | heq | ⟨base, heq, -⟩ | ⟨other, heq, -, h⟩)
  · exact absurd hplain (by simp)
  · exact absurd ((String.append_left_inj _).mp (heq.trans (String.empty_append).symm)) hne
  · rw [append_dotAsterisk, String.append_left_inj] at heq
    exact absurd (by simp [heq]) hdot
  · rwa [(String.append_left_inj _).mp heq]

/-- A pattern stands for what its text stands for. -/
theorem covers_iff_denotes {text : List Char} {pattern : PackagePattern} (h : Spells text pattern)
    {package : String} : pattern.covers package = true ↔ Denotes (String.ofList text) package := by
  cases h with
  | exact _ hplain => rw [covers_exact, denotes_of_plain (by rwa [String.toList_ofList])]
  | every => exact ⟨fun _ => Or.inr (Or.inl rfl), fun _ => rfl⟩
  | below _ =>
      rw [covers_below, String.ofList_append]
      exact denotes_below.symm
  | @starting stem hne _ hdot =>
      have hstem : String.ofList stem ≠ "" := by
        rwa [Ne, ← String.toList_eq_nil_iff, String.toList_ofList]
      have hlast : (String.ofList stem).toList.getLast? ≠ some '.' := by
        rwa [String.toList_ofList]
      rw [covers_starting, String.ofList_append]
      exact (denotes_starting hstem hlast).symm

/-! ### Which patterns take in which -/

/-- Whether a pattern takes in another.  Two packages of the narrow one tell: the shortest, and one
that goes on from it. -/
def takesIn (wide : PackagePattern) : (narrow : PackagePattern) → Bool
  | .exact name => wide.covers name
  | .every => wide.covers "" && wide.covers "a"
  | .below base => wide.covers base && wide.covers (base ++ ".")
  | .starting stem => wide.covers stem && wide.covers (stem ++ "a")

theorem takesIn_of_forall {wide narrow : PackagePattern}
    (h : ∀ package, narrow.covers package = true → wide.covers package = true) :
    wide.takesIn narrow = true := by
  cases narrow with
  | exact name => exact h name (covers_exact.mpr rfl)
  | every => exact Bool.and_eq_true_iff.mpr ⟨h "" rfl, h "a" rfl⟩
  | below base =>
      refine Bool.and_eq_true_iff.mpr ⟨h _ (covers_below.mpr (Or.inl rfl)), h _ ?_⟩
      exact covers_below.mpr (Or.inr ⟨"", String.append_empty.symm⟩)
  | starting stem =>
      have hshort := covers_starting.mpr ⟨"", (String.append_empty (s := stem)).symm⟩
      exact Bool.and_eq_true_iff.mpr ⟨h _ hshort, h _ (covers_starting.mpr ⟨"a", rfl⟩)⟩

theorem self_ne_append {text tail : String} (h : tail ≠ "") : text ≠ text ++ tail := by
  intro heq
  exact h ((String.append_right_inj text).mp (String.append_empty.trans heq)).symm

/-- A single package takes in a single package only. -/
theorem eq_exact_of_takesIn_exact {name : String} {narrow : PackagePattern}
    (h : (exact name).takesIn narrow = true) : narrow = exact name := by
  cases narrow with
  | exact other => rw [covers_exact.mp h]
  | every | below base | starting stem =>
      obtain ⟨hshort, hlong⟩ := Bool.and_eq_true_iff.mp h
      rw [covers_exact] at hshort hlong
      exact absurd (hshort.trans hlong.symm) (by simp [self_ne_append])

/-- A name that goes on with a letter is not the base and not below it. -/
theorem not_covers_below_letter (base : String) : (below base).covers (base ++ "a") ≠ true := by
  rw [Ne, covers_below]
  rintro (h | ⟨rest, h⟩)
  · exact self_ne_append (by simp) h.symm
  · rw [String.append_assoc, String.append_right_inj] at h
    have hhead := congrArg (fun text => text.toList.head?) h
    simp at hhead

/-- Only the pattern for every package takes in the pattern for every package. -/
theorem eq_every_of_takesIn_every {wide : PackagePattern} (hwide : wide ≠ starting "")
    (h : wide.takesIn every = true) : wide = every := by
  obtain ⟨hempty, hletter⟩ := Bool.and_eq_true_iff.mp h
  cases wide with
  | exact name =>
      exact absurd ((covers_exact.mp hempty).trans (covers_exact.mp hletter).symm) (by simp)
  | every => rfl
  | below base =>
      -- The empty name is below no base, so it is the base itself, and no letter goes on from it.
      obtain rfl : base = "" := by
        rcases covers_below.mp hempty with h | ⟨rest, h⟩
        · exact h.symm
        · have hdot : '.' ∈ "".toList := by
            rw [h]
            simp
          exact absurd hdot (by simp)
      exact absurd hletter (not_covers_below_letter "")
  | starting stem =>
      obtain ⟨rest, hrest⟩ := covers_starting.mp hempty
      exact absurd (by rw [(String.append_eq_empty_iff.mp hrest.symm).1]) hwide

/-- What a pattern with an asterisk stands for is closed under going on, except that a base goes on
with a dot only. -/
theorem covers_append {wide : PackagePattern} {package tail : String}
    (hwide : ∀ name, wide ≠ exact name)
    (hbase : wide = below package → ∃ rest, tail = "." ++ rest)
    (h : wide.covers package = true) : wide.covers (package ++ tail) = true := by
  cases wide with
  | exact name => exact absurd rfl (hwide name)
  | every => rfl
  | below base =>
      rw [covers_below] at h ⊢
      rcases h with rfl | ⟨rest, rfl⟩
      · obtain ⟨rest, rfl⟩ := hbase rfl
        exact Or.inr ⟨rest, String.append_assoc.symm⟩
      · exact Or.inr ⟨rest ++ tail, String.append_assoc⟩
  | starting stem =>
      rw [covers_starting] at h ⊢
      obtain ⟨rest, rfl⟩ := h
      exact ⟨rest ++ tail, String.append_assoc⟩

/-- One pattern stands for all packages of another exactly if it takes it in. -/
theorem takesIn_iff {wide narrow : PackagePattern} (hwide : wide ≠ starting "") :
    wide.takesIn narrow = true ↔
      ∀ package, narrow.covers package = true → wide.covers package = true := by
  refine ⟨?_, takesIn_of_forall⟩
  intro h package hpackage
  by_cases hexact : ∃ name, wide = exact name
  · obtain ⟨name, rfl⟩ := hexact
    rwa [eq_exact_of_takesIn_exact h] at hpackage
  · -- The wide pattern ends in an asterisk, so it goes on from the shortest package of the narrow
    -- one to all others; the longer one shows that it does so behind a base, too.
    rw [not_exists] at hexact
    cases narrow with
    | exact name => rwa [covers_exact.mp hpackage]
    | every =>
        rw [eq_every_of_takesIn_every hwide h]
        rfl
    | below base =>
        obtain ⟨hbase, -⟩ := Bool.and_eq_true_iff.mp h
        rcases covers_below.mp hpackage with rfl | ⟨rest, rfl⟩
        · exact hbase
        · rw [String.append_assoc]
          exact covers_append hexact (fun _ => ⟨rest, rfl⟩) hbase
    | starting stem =>
        obtain ⟨hstem, hletter⟩ := Bool.and_eq_true_iff.mp h
        obtain ⟨rest, rfl⟩ := covers_starting.mp hpackage
        refine covers_append hexact ?_ hstem
        intro hbelow
        rw [hbelow] at hletter
        exact absurd hletter (not_covers_below_letter stem)

/-! ### Specificity -/

theorem specificity_le_of_takesIn {wide narrow : PackagePattern} (hwide : wide ≠ starting "")
    (h : wide.takesIn narrow = true) : wide.specificity ≤ narrow.specificity := by
  cases wide with
  | exact name =>
      have heq := eq_exact_of_takesIn_exact h
      exact Nat.le_of_eq (by rw [heq])
  | every => cases narrow <;> simp [specificity]
  | below base | starting stem =>
      cases narrow with
      | every => cases eq_every_of_takesIn_every hwide h
      | exact _ | below _ | starting _ => simp [specificity]

theorem Spells.ne_starting_empty {text : List Char} {pattern : PackagePattern}
    (h : Spells text pattern) : pattern ≠ PackagePattern.starting "" := by
  intro hc
  cases h with
  | exact | every | below => cases hc
  | @starting stem hne =>
      rw [PackagePattern.starting.injEq, ← String.toList_eq_nil_iff, String.toList_ofList] at hc
      exact hne hc

/-- A pattern stands for what its text stands for, and it is at least as specific as any pattern
that stands for all its packages. -/
theorem specificity_le_of_included {narrowText wideText : String} {narrow wide : PackagePattern}
    (hnarrow : parse narrowText = .ok narrow) (hwide : parse wideText = .ok wide) :
    (∀ package, narrow.covers package = true ↔
        Denotes (String.ofList (Text.trim narrowText.toList)) package)
      ∧ (∀ package, wide.covers package = true ↔
        Denotes (String.ofList (Text.trim wideText.toList)) package)
      ∧ ((∀ package, narrow.covers package = true → wide.covers package = true) →
        wide.specificity ≤ narrow.specificity) := by
  rw [parse_eq_ok_iff_spells] at hnarrow hwide
  refine ⟨fun _ => covers_iff_denotes hnarrow, fun _ => covers_iff_denotes hwide, ?_⟩
  intro hincluded
  exact specificity_le_of_takesIn hwide.ne_starting_empty (takesIn_of_forall hincluded)

/-- A dot by itself is below the package without a name. -/
theorem dot_included : parse " . " = .ok (exact ".") ∧ parse ".*" = .ok (below "")
    ∧ (∀ package, (exact ".").covers package = true → (below "").covers package = true)
    ∧ (below "").specificity ≤ (exact ".").specificity := by
  have hdot : parse " . " = .ok (exact ".") := by decide +kernel
  have hbelow : parse ".*" = .ok (below "") := by decide +kernel
  have hincluded : ∀ package, (exact ".").covers package = true →
      (below "").covers package = true := (takesIn_iff (by decide)).mp (by decide +kernel)
  exact ⟨hdot, hbelow, hincluded, (specificity_le_of_included hdot hbelow).2.2 hincluded⟩

end PackagePattern

end PackageAudit
