/-
What element names stand for.

A name is written out letter by letter, and what a letter adds depends on where it stands and on
what was written before it.  A whole segment, though, adds itself and nothing else, wherever it
stands and whatever follows it: it ends in no underscore, so its last letter is not taken for the
mark of a whole subtree even at the end of the name.  A capital in front of it adds the dot.  So
the segments can be read off one after the other, and names made from different segments stand
for different packages, since no segment holds a dot.

Names with dollar signs are written out the same way, with each dollar sign for a dot.
-/
import PackageAudit.Proofs.Rules.Patterns
import PackageAudit.Proofs.Screening
import PackageAudit.Rules.Family

namespace PackageAudit

/-! ### Joined lists -/

section Intercalate

variable {α : Type} {separator : List α} {parts : List (List α)}

/-- A list that was joined ends as one of its parts does. -/
theorem exists_getLast?_intercalate (separator : List α) (hne : parts ≠ [])
    (hparts : ∀ part ∈ parts, part ≠ []) :
    ∃ part ∈ parts, (separator.intercalate parts).getLast? = part.getLast?
      ∧ separator.intercalate parts ≠ [] := by
  induction parts with
  | nil => exact absurd rfl hne
  | cons part rest ih =>
      cases rest with
      | nil =>
          rw [List.intercalate_singleton]
          exact ⟨part, List.mem_cons_self, rfl, hparts part List.mem_cons_self⟩
      | cons next rest =>
          obtain ⟨last, hmem, hlast, hjoined⟩ := ih (by simp) fun p hp =>
            hparts p (List.mem_cons_of_mem _ hp)
          refine ⟨last, List.mem_cons_of_mem _ hmem, ?_, ?_⟩
          · rw [List.intercalate_cons_cons, List.getLast?_append_of_ne_nil _ hjoined, hlast]
          · rw [List.intercalate_cons_cons]
            exact List.append_ne_nil_of_right_ne_nil _ hjoined

theorem mem_intercalate {c : α} (h : c ∈ separator.intercalate parts) :
    c ∈ separator ∨ ∃ part ∈ parts, c ∈ part := by
  induction parts with
  | nil => simp at h
  | cons part rest ih =>
      cases rest with
      | nil =>
          rw [List.intercalate_singleton] at h
          exact Or.inr ⟨part, List.mem_cons_self, h⟩
      | cons next rest =>
          rw [List.intercalate_cons_cons, List.mem_append, List.mem_append] at h
          rcases h with (h | h) | h
          · exact Or.inr ⟨part, List.mem_cons_self, h⟩
          · exact Or.inl h
          · rcases ih h with h | ⟨p, hp, hc⟩
            · exact Or.inl h
            · exact Or.inr ⟨p, List.mem_cons_of_mem _ hp, hc⟩

theorem intercalate_cons_eq_flatMap (part : List α) (rest : List (List α)) :
    separator.intercalate (part :: rest) = part ++ rest.flatMap (separator ++ ·) := by
  induction rest generalizing part with
  | nil => simp
  | cons next rest ih => rw [List.intercalate_cons_cons, ih, List.flatMap_cons, List.append_assoc,
      List.append_assoc]

end Intercalate

namespace Text

variable {text : List Char}

theorem trim_eq_self (hhead : ∀ c ∈ text.head?, isWhite c = false)
    (hlast : ∀ c ∈ text.getLast?, isWhite c = false) : trim text = text := by
  have hfront : text.dropWhile isWhite = text := by
    cases text with
    | nil => rfl
    | cons c rest => rw [List.dropWhile_cons, hhead c rfl]; rfl
  have hback : text.reverse.dropWhile isWhite = text.reverse := by
    rw [← List.head?_reverse] at hlast
    cases hrev : text.reverse with
    | nil => rfl
    | cons c rest =>
        rw [hrev] at hlast
        rw [List.dropWhile_cons, hlast c rfl]; rfl
  rw [trim, hfront, hback, List.reverse_reverse]

theorem length_trim_le (text : List Char) : (trim text).length ≤ text.length := by
  obtain ⟨before, after, htext, -⟩ := exists_trim_around text
  have hlength := congrArg List.length htext
  rw [List.length_append, List.length_append] at hlength
  omega

/-- A text that trimming leaves alone does not begin with white space. -/
theorem isWhite_head_of_trim_eq_self (h : trim text = text) :
    ∀ c ∈ text.head?, isWhite c = false := by
  cases text with
  | nil => simp
  | cons first rest =>
      intro c hc
      obtain rfl : first = c := by simpa using hc
      by_contra hwhite
      have hdrop : trim ([first] ++ rest) = trim rest := trim_append_left (by simpa using hwhite)
      have hlength := length_trim_le rest
      rw [← hdrop, List.singleton_append, h, List.length_cons] at hlength
      omega

end Text

namespace RuleFamily

/-! ### Letters -/

/-- The characters that segments are made of. -/
def IsSegmentChar (c : Char) : Prop := c.isLower = true ∨ c.isDigit = true ∨ c = '_'

instance : DecidablePred IsSegmentChar :=
  fun c => inferInstanceAs (Decidable (c.isLower = true ∨ c.isDigit = true ∨ c = '_'))

/-- A part of a package name that an element name can spell: small letters, digits and underscores,
with a letter in front and no underscore at the end. -/
structure IsSegment (segment : List Char) : Prop where
  chars : ∀ c ∈ segment, IsSegmentChar c
  head : ∃ c rest, segment = c :: rest ∧ c.isLower = true
  last : segment.getLast? ≠ some '_'

variable {c : Char}

theorem isLower_iff : c.isLower = true ↔ 97 ≤ c.toNat ∧ c.toNat ≤ 122 := by
  show (decide (c.val ≥ 97) && decide (c.val ≤ 122)) = true ↔ _
  simp only [Bool.and_eq_true, decide_eq_true_eq, ge_iff_le, UInt32.le_iff_toNat_le]
  rfl

theorem isDigit_iff : c.isDigit = true ↔ 48 ≤ c.toNat ∧ c.toNat ≤ 57 := by
  simp only [Char.isDigit, Bool.and_eq_true, decide_eq_true_eq, ge_iff_le, UInt32.le_iff_toNat_le]
  rfl

theorem toNat_of_isSegmentChar (h : IsSegmentChar c) :
    97 ≤ c.toNat ∧ c.toNat ≤ 122 ∨ 48 ≤ c.toNat ∧ c.toNat ≤ 57 ∨ c.toNat = 95 := by
  rcases h with h | h | rfl
  · exact Or.inl (isLower_iff.mp h)
  · exact Or.inr (Or.inl (isDigit_iff.mp h))
  · exact Or.inr (Or.inr rfl)

/-- Of the first 128 characters only the capitals are upper-case letters. -/
theorem isUpper_ofNat : ∀ n < 128, Text.isUpper (Char.ofNat n) = decide (65 ≤ n ∧ n ≤ 90) := by
  decide +kernel

theorem isUpper_of_isSegmentChar (h : IsSegmentChar c) : Text.isUpper c = false := by
  have hn := toNat_of_isSegmentChar h
  have hupper := isUpper_ofNat c.toNat (by omega)
  rw [Char.ofNat_toNat] at hupper
  rw [hupper, decide_eq_false_iff_not]
  omega

theorem isWhite_of_isSegmentChar (h : IsSegmentChar c) : Text.isWhite c = false := by
  have hn := toNat_of_isSegmentChar h
  simp only [Text.isWhite, Text.whiteRanges, List.any_cons, List.any_nil, Bool.or_eq_false_iff,
    Bool.and_eq_false_iff, decide_eq_false_iff_not, and_true]
  omega

theorem toUpper_ofNat : ∀ n < 26, Text.isUpper (Char.ofNat (97 + n)).toUpper = true
    ∧ Text.toLower (Char.ofNat (97 + n)).toUpper = [Char.ofNat (97 + n)]
    ∧ (Char.ofNat (97 + n)).toUpper ≠ '_' ∧ (Char.ofNat (97 + n)).toUpper ≠ '$' := by
  decide +kernel

/-- The capital of a small letter has that letter for its lower-case form. -/
theorem toUpper_of_isLower (h : c.isLower = true) : Text.isUpper c.toUpper = true
    ∧ Text.toLower c.toUpper = [c] ∧ c.toUpper ≠ '_' ∧ c.toUpper ≠ '$' := by
  rw [isLower_iff] at h
  have hcapital := toUpper_ofNat (c.toNat - 97) (by omega)
  rwa [Nat.add_sub_cancel' h.1, Char.ofNat_toNat] at hcapital

/-! ### Names without dollar signs -/

/-- A text with its first letter in upper case. -/
def capitalized : List Char → List Char
  | [] => []
  | c :: rest => c.toUpper :: rest

/-- Segments in camel case: the first as it is, and each later one with a capital in front. -/
def camelCase : List (List Char) → List Char
  | [] => []
  | first :: rest => first ++ rest.flatMap capitalized

variable {out segment : List Char} {segments : List (List Char)}

/-- A name that does not end in an underscore does not begin or go on with one that is its last
letter. -/
theorem not_mark_of_getLast? {rest : List Char} (h : (c :: rest).getLast? ≠ some '_') :
    (c = '_' → rest ≠ []) ∧ rest.getLast? ≠ some '_' := by
  cases rest with
  | nil => simpa using h
  | cons d rest => simpa using h

theorem elementChars_of_isSegmentChar {isFirst isLast : Bool} (h : IsSegmentChar c)
    (hlast : c = '_' → isLast = false) : elementChars false out isFirst isLast c = [c] := by
  have hmark : (c = '_' && isLast) = false := by
    by_cases hc : c = '_' <;> simp [hc, hlast]
  simp [elementChars, hmark, isUpper_of_isSegmentChar h]

/-- Letters of segments add themselves, unless the last one of the name is an underscore. -/
theorem expandFrom_chars (hchars : ∀ c ∈ segment, IsSegmentChar c)
    (hlast : segment.getLast? ≠ some '_') (isFirst : Bool) (tail : List Char) :
    expandFrom false out isFirst (segment ++ tail)
      = expandFrom false (out ++ segment) (isFirst && segment.isEmpty) tail := by
  induction segment generalizing out isFirst with
  | nil => simp
  | cons c rest ih =>
      -- An underscore is not the last letter of the segment, so not the last one of the name.
      obtain ⟨hmark, hrest⟩ := not_mark_of_getLast? hlast
      have hc : elementChars false out isFirst (rest ++ tail).isEmpty c = [c] :=
        elementChars_of_isSegmentChar (hchars c List.mem_cons_self) fun hc => by simp [hmark hc]
      rw [List.cons_append, expandFrom, hc,
        ih (fun d hd => hchars d (List.mem_cons_of_mem _ hd)) hrest]
      simp

/-- A segment with a capital in front adds a dot and itself. -/
theorem expandFrom_capitalized (h : IsSegment segment) (tail : List Char) :
    expandFrom false out false (capitalized segment ++ tail)
      = expandFrom false (out ++ '.' :: segment) false tail := by
  obtain ⟨c, rest, rfl, hlower⟩ := h.head
  obtain ⟨hupper, hlow, hmark, -⟩ := toUpper_of_isLower hlower
  have hchars : elementChars false out false (rest ++ tail).isEmpty c.toUpper = ['.', c] := by
    simp [elementChars, hmark, hupper, hlow]
  obtain ⟨-, hrest⟩ := not_mark_of_getLast? h.last
  rw [capitalized, List.cons_append, expandFrom, hchars,
    expandFrom_chars (fun d hd => h.chars d (List.mem_cons_of_mem _ hd)) hrest]
  simp

theorem expandFrom_segments (h : ∀ segment ∈ segments, IsSegment segment) (tail : List Char) :
    expandFrom false out false (segments.flatMap capitalized ++ tail)
      = expandFrom false (out ++ segments.flatMap (['.'] ++ ·)) false tail := by
  induction segments generalizing out with
  | nil => simp
  | cons segment rest ih =>
      rw [List.flatMap_cons, List.append_assoc,
        expandFrom_capitalized (h segment List.mem_cons_self),
        ih (fun s hs => h s (List.mem_cons_of_mem _ hs))]
      simp

/-- All segments add themselves with dots between them, whatever follows. -/
theorem expandFrom_camelCase (hne : segments ≠ []) (h : ∀ segment ∈ segments, IsSegment segment)
    (tail : List Char) :
    expandFrom false [] true (camelCase segments ++ tail)
      = expandFrom false (['.'].intercalate segments) false tail := by
  cases segments with
  | nil => exact absurd rfl hne
  | cons first rest =>
      -- The first segment is not empty, so no capital behind it counts as the first letter.
      have hfirst := h first List.mem_cons_self
      obtain ⟨c, cs, hcons, -⟩ := hfirst.head
      rw [camelCase, List.append_assoc, expandFrom_chars hfirst.chars hfirst.last,
        intercalate_cons_eq_flatMap, hcons]
      exact expandFrom_segments (fun s hs => h s (List.mem_cons_of_mem _ hs)) tail

theorem IsSegment.not_mem (h : IsSegment segment) (hc : ¬ IsSegmentChar c) : c ∉ segment :=
  fun hmem => hc (h.chars c hmem)

theorem dollar_not_mem_camelCase (h : ∀ segment ∈ segments, IsSegment segment) :
    '$' ∉ camelCase segments := by
  cases segments with
  | nil => exact List.not_mem_nil
  | cons first rest =>
      rw [camelCase, List.mem_append, List.mem_flatMap]
      rintro (hfirst | ⟨segment, hsegment, hmem⟩)
      · exact (h first List.mem_cons_self).not_mem (by decide) hfirst
      · have hs := h segment (List.mem_cons_of_mem _ hsegment)
        obtain ⟨c, cs, rfl, hlower⟩ := hs.head
        rcases List.mem_cons.mp hmem with hc | hc
        · exact (toUpper_of_isLower hlower).2.2.2 hc.symm
        · exact hs.not_mem (by decide) (List.mem_cons_of_mem _ hc)

/-- Joined segments end in a letter or digit of the last of them. -/
theorem exists_getLast?_segments (hne : segments ≠ [])
    (h : ∀ segment ∈ segments, IsSegment segment) :
    ∃ c, (['.'].intercalate segments).getLast? = some c ∧ IsSegmentChar c := by
  obtain ⟨segment, hmem, hlast, hjoined⟩ := exists_getLast?_intercalate ['.'] hne
    fun segment hs => by
      obtain ⟨c, rest, rfl, -⟩ := (h segment hs).head
      exact List.cons_ne_nil c rest
  have hc := List.getLast?_eq_some_getLast hjoined
  exact ⟨_, hc, (h segment hmem).chars _ (List.mem_of_getLast? (hlast ▸ hc))⟩

theorem expand_camelCase (hne : segments ≠ []) (h : ∀ segment ∈ segments, IsSegment segment) :
    expand (camelCase segments) = ['.'].intercalate segments := by
  have hdollar : (camelCase segments).contains '$' = false := by
    simpa using dollar_not_mem_camelCase h
  rw [expand, hdollar, ← List.append_nil (camelCase segments), expandFrom_camelCase hne h]
  rfl

theorem expand_camelCase_mark (hne : segments ≠ []) (h : ∀ segment ∈ segments, IsSegment segment) :
    expand (camelCase segments ++ ['_']) = ['.'].intercalate segments ++ ['.', '*'] := by
  have hdollar : (camelCase segments ++ ['_']).contains '$' = false := by
    simpa using dollar_not_mem_camelCase h
  -- What stands before the mark ends in no dot, so the mark adds one with its asterisk.
  obtain ⟨c, hlast, hc⟩ := exists_getLast?_segments hne h
  have hdot : c ≠ '.' := by
    rintro rfl
    exact absurd hc (by decide)
  have hjoined : ['.'].intercalate segments ≠ [] := by
    intro hnil
    rw [hnil] at hlast
    cases hlast
  rw [expand, hdollar, expandFrom_camelCase hne h, expandFrom, expandFrom]
  simp [elementChars, hjoined, hlast, hdot]

/-! ### Names with dollar signs -/

/-- What a letter of a name with dollar signs adds, behind the first letter. -/
def dotted (c : Char) : Char := if c = '$' then '.' else c

theorem elementChars_dollar {isFirst isLast : Bool} (hmark : c = '_' → isLast = false) :
    elementChars true out isFirst isLast c = [if isFirst then c else dotted c] := by
  have hnot : (c = '_' && isLast) = false := by
    by_cases hc : c = '_' <;> simp [hc, hmark]
  cases isFirst <;> simp [elementChars, hnot, dotted]

theorem expandFrom_dollar {name : List Char} (hlast : name.getLast? ≠ some '_') :
    expandFrom true out false name = out ++ name.map dotted := by
  induction name generalizing out with
  | nil => simp [expandFrom]
  | cons c rest ih =>
      obtain ⟨hmark, hrest⟩ := not_mark_of_getLast? hlast
      rw [expandFrom, elementChars_dollar fun hc => by simp [hmark hc], ih hrest]
      simp

/-- A name with dollar signs, none of them in front, stands for itself with dots in their place. -/
theorem expand_of_dollar {name : List Char} (hdollar : '$' ∈ name) (hhead : name.head? ≠ some '$')
    (hlast : name.getLast? ≠ some '_') : expand name = name.map dotted := by
  cases name with
  | nil => exact absurd hdollar List.not_mem_nil
  | cons c rest =>
      obtain ⟨hmark, hrest⟩ := not_mark_of_getLast? hlast
      have hc : dotted c = c := if_neg fun heq => hhead (by simp [heq])
      rw [expand, List.contains_iff_mem.mpr hdollar, expandFrom,
        elementChars_dollar fun hc => by simp [hmark hc], expandFrom_dollar hrest, List.map_cons,
        hc]
      rfl

theorem map_dotted_intercalate {parts : List (List Char)} (h : ∀ part ∈ parts, '$' ∉ part) :
    (['$'].intercalate parts).map dotted = ['.'].intercalate parts := by
  induction parts with
  | nil => rfl
  | cons part rest ih =>
      have hpart : part.map dotted = part := by
        conv_rhs => rw [← List.map_id part]
        refine List.map_congr_left fun c hc => if_neg fun heq => ?_
        exact h part List.mem_cons_self (heq ▸ hc)
      have hrest := ih fun p hp => h p (List.mem_cons_of_mem _ hp)
      cases rest with
      | nil => rw [List.intercalate_singleton, List.intercalate_singleton, hpart]
      | cons next rest =>
          rw [List.intercalate_cons_cons, List.intercalate_cons_cons, List.map_append,
            List.map_append, hpart, hrest]
          rfl

/-- A part between dollar signs. -/
structure IsPart (part : List Char) : Prop where
  ne_nil : part ≠ []
  dollar_not_mem : '$' ∉ part
  last : part.getLast? ≠ some '_'

theorem expand_parts {parts : List (List Char)} (htwo : 2 ≤ parts.length)
    (h : ∀ part ∈ parts, IsPart part) :
    expand (['$'].intercalate parts) = ['.'].intercalate parts := by
  obtain ⟨first, rest, rfl⟩ := List.exists_cons_of_length_pos (Nat.lt_of_succ_lt htwo)
  obtain ⟨second, rest, rfl⟩ := List.exists_cons_of_length_pos (Nat.lt_of_succ_lt_succ htwo)
  obtain ⟨last, hmem, hlast, -⟩ := exists_getLast?_intercalate ['$']
    (List.cons_ne_nil first (second :: rest)) fun part hp => (h part hp).ne_nil
  have hfirst := h first List.mem_cons_self
  obtain ⟨c, cs, rfl⟩ := List.exists_cons_of_ne_nil hfirst.ne_nil
  rw [expand_of_dollar, map_dotted_intercalate fun part hp => (h part hp).dollar_not_mem]
  · simp [List.intercalate_cons_cons]
  · rw [List.intercalate_cons_cons]
    intro hc
    exact hfirst.dollar_not_mem (by simpa using Or.inl hc.symm)
  · rw [hlast]
    exact (h last hmem).last

/-! ### Patterns -/

/-- A package that elements can be named below: it has a name, which ends in no dot and has no
asterisk and no white space around it. -/
structure IsBase (base : String) : Prop where
  ne_empty : base ≠ ""
  last : base.toList.getLast? ≠ some '.'
  plain : '*' ∉ base.toList
  trimmed : Text.trim base.toList = base.toList

/-- The package below a base that some segments lead to. -/
def packageBelow (base : String) (segments : List String) : String :=
  ".".intercalate (base :: segments)

/-- The name of an element, from the segments that lead to it. -/
def nameOf (segments : List String) : String :=
  String.ofList (camelCase (segments.map String.toList))

/-- Segments that lead to an element: at least one, and none that a name cannot spell. -/
structure AreSegments (segments : List String) : Prop where
  ne_nil : segments ≠ []
  isSegment : ∀ segment ∈ segments, IsSegment segment.toList

section Below

variable {family : RuleFamily} {base name : String} {segments other : List String}

theorem toList_packageBelow (hne : segments ≠ []) :
    (packageBelow base segments).toList
      = base.toList ++ '.' :: ['.'].intercalate (segments.map String.toList) := by
  obtain ⟨first, rest, rfl⟩ := List.exists_cons_of_ne_nil hne
  rw [packageBelow, String.toList_intercalate, List.map_cons, List.map_cons,
    List.intercalate_cons_cons]
  simp

theorem under_of_isBase (hbase : IsBase base) {sub : String} (hsub : sub ≠ "") :
    under base sub = base ++ "." ++ sub := by
  simp [under, hbase.ne_empty, hbase.last, hsub]

/-- The pattern of an element whose name expands to joined segments, and more behind them. -/
theorem elementPattern_eq (hbase : IsBase family.base) (hne : segments ≠ [])
    (hsegments : ∀ segment ∈ segments, segment ≠ "") (tail : List Char)
    (h : expand name.toList = ['.'].intercalate (segments.map String.toList) ++ tail) :
    family.elementPattern name = packageBelow family.base segments ++ String.ofList tail := by
  have hmap : segments.map String.toList ≠ [] := by simpa using hne
  obtain ⟨-, -, -, hjoined⟩ := exists_getLast?_intercalate ['.'] hmap (by simpa using hsegments)
  have hsub : String.ofList (expand name.toList) ≠ "" := by
    rw [Ne, ← String.toList_eq_nil_iff, String.toList_ofList, h]
    exact List.append_ne_nil_of_left_ne_nil hjoined _
  rw [elementPattern, under_of_isBase hbase hsub, ← String.toList_inj, h, String.toList_append,
    String.toList_append, String.toList_append, toList_packageBelow hne]
  simp

theorem AreSegments.map_ne_nil (h : AreSegments segments) : segments.map String.toList ≠ [] := by
  simpa using h.ne_nil

theorem AreSegments.forall_map (h : AreSegments segments) :
    ∀ segment ∈ segments.map String.toList, IsSegment segment := by
  simpa using h.isSegment

theorem AreSegments.ne_empty (h : AreSegments segments) : ∀ segment ∈ segments, segment ≠ "" := by
  rintro segment hmem rfl
  obtain ⟨c, rest, hcons, -⟩ := (h.isSegment _ hmem).head
  simp at hcons

theorem elementPattern_nameOf (hbase : IsBase family.base) (h : AreSegments segments) :
    family.elementPattern (nameOf segments) = packageBelow family.base segments := by
  have hexpand := expand_camelCase h.map_ne_nil h.forall_map
  rw [elementPattern_eq hbase h.ne_nil h.ne_empty [], String.ofList_nil, String.append_empty]
  rw [nameOf, String.toList_ofList, hexpand, List.append_nil]

theorem elementPattern_mark (hbase : IsBase family.base) (h : AreSegments segments) :
    family.elementPattern (nameOf segments ++ "_") = packageBelow family.base segments ++ ".*" := by
  refine elementPattern_eq hbase h.ne_nil h.ne_empty ['.', '*'] ?_
  rw [nameOf, String.toList_append, String.toList_ofList]
  exact expand_camelCase_mark h.map_ne_nil h.forall_map

theorem elementPattern_parts (hbase : IsBase family.base) {parts : List String}
    (htwo : 2 ≤ parts.length) (h : ∀ part ∈ parts, IsPart part.toList) :
    family.elementPattern ("$".intercalate parts) = packageBelow family.base parts := by
  have hne : parts ≠ [] := by
    rintro rfl
    simp at htwo
  have hempty : ∀ part ∈ parts, part ≠ "" := by
    rintro part hmem rfl
    exact (h _ hmem).ne_nil rfl
  rw [elementPattern_eq hbase hne hempty [], String.ofList_nil, String.append_empty]
  rw [String.toList_intercalate, List.append_nil]
  exact expand_parts (by simpa using htwo) (by simpa using h)

theorem AreSegments.splitOn_intercalate (h : AreSegments segments) :
    (['.'].intercalate (segments.map String.toList)).splitOn '.' = segments.map String.toList :=
  List.splitOn_intercalate '.' (fun part hpart => (h.forall_map part hpart).not_mem (by decide))
    h.map_ne_nil

/-- Segments hold no dots, so the package tells them apart. -/
theorem packageBelow_inj (h : AreSegments segments) (hother : AreSegments other)
    (heq : packageBelow base segments = packageBelow base other) : segments = other := by
  have hlist := congrArg String.toList heq
  rw [toList_packageBelow h.ne_nil, toList_packageBelow hother.ne_nil, List.append_right_inj,
    List.cons.injEq] at hlist
  have hsplit := congrArg (List.splitOn '.') hlist.2
  rw [h.splitOn_intercalate, hother.splitOn_intercalate] at hsplit
  exact List.map_injective_iff.mpr (fun _ _ => String.toList_inj.mp) hsplit

theorem asterisk_not_mem_packageBelow (hbase : IsBase base) (h : AreSegments segments) :
    '*' ∉ (packageBelow base segments).toList := by
  rw [toList_packageBelow h.ne_nil, List.mem_append, List.mem_cons]
  rintro (hmem | hdot | hmem)
  · exact hbase.plain hmem
  · exact absurd hdot (by decide)
  · rcases mem_intercalate hmem with hdot | ⟨part, hpart, hmem⟩
    · exact absurd hdot (by decide)
    · exact (h.forall_map part hpart).not_mem (by decide) hmem

/-- A text below a base has no white space around it if it ends in none. -/
theorem trim_packageBelow (hbase : IsBase base) (hne : segments ≠ []) (tail : List Char)
    (hlast : ∀ c ∈ ((packageBelow base segments).toList ++ tail).getLast?, Text.isWhite c = false) :
    Text.trim ((packageBelow base segments).toList ++ tail)
      = (packageBelow base segments).toList ++ tail := by
  refine Text.trim_eq_self ?_ hlast
  obtain ⟨c, rest, hcons⟩ := List.exists_cons_of_ne_nil
    (mt String.toList_eq_nil_iff.mp hbase.ne_empty)
  have hwhite := Text.isWhite_head_of_trim_eq_self hbase.trimmed
  rw [hcons] at hwhite
  rw [toList_packageBelow hne, hcons]
  exact hwhite

theorem parse_packageBelow (hbase : IsBase base) (h : AreSegments segments) :
    PackagePattern.parse (packageBelow base segments)
      = .ok (.exact (packageBelow base segments)) := by
  have hplain := asterisk_not_mem_packageBelow hbase h
  obtain ⟨c, hlast, hc⟩ := exists_getLast?_segments h.map_ne_nil h.forall_map
  have hend : (packageBelow base segments).toList.getLast? = some c := by
    rw [toList_packageBelow h.ne_nil, List.append_cons, List.getLast?_append, hlast]
    rfl
  have htrim := trim_packageBelow hbase h.ne_nil [] fun d hd => by
    rw [List.append_nil, hend] at hd
    obtain rfl : c = d := by simpa using hd
    exact isWhite_of_isSegmentChar hc
  have hspells : PackagePattern.Spells (packageBelow base segments).toList
      (.exact (String.ofList (packageBelow base segments).toList)) :=
    .exact (by rw [toList_packageBelow h.ne_nil]; simp) hplain
  rw [List.append_nil] at htrim
  rw [PackagePattern.parse_eq_ok_iff_spells, htrim]
  rwa [String.ofList_toList] at hspells

theorem parse_packageBelow_mark (hbase : IsBase base) (h : AreSegments segments) :
    PackagePattern.parse (packageBelow base segments ++ ".*")
      = .ok (.below (packageBelow base segments)) := by
  have htrim := trim_packageBelow hbase h.ne_nil ['.', '*'] (by
    simp [Text.isWhite, Text.whiteRanges])
  have hspells := PackagePattern.Spells.below (asterisk_not_mem_packageBelow hbase h)
  rw [String.ofList_toList, ← htrim] at hspells
  rw [PackagePattern.parse_eq_ok_iff_spells, String.toList_append]
  exact hspells

end Below

/-- What the element names of a family stand for. -/
structure NamesPackages (family : RuleFamily) : Prop where
  /-- A name in camel case stands for the one package that its segments lead to. -/
  exact : ∀ segments, AreSegments segments →
    (family.element (nameOf segments)).1 = packageBelow family.base segments
      ∧ ∃ pattern, PackagePattern.parse (family.element (nameOf segments)).1 = .ok pattern
        ∧ ∀ package, pattern.covers package = true ↔ package = packageBelow family.base segments
  /-- With an underscore at its end it stands for that package and all packages below it. -/
  below : ∀ segments, AreSegments segments →
    (family.element (nameOf segments ++ "_")).1 = packageBelow family.base segments ++ ".*"
      ∧ ∃ pattern, PackagePattern.parse (family.element (nameOf segments ++ "_")).1 = .ok pattern
        ∧ ∀ package, pattern.covers package = true ↔
          package = packageBelow family.base segments
            ∨ ∃ rest, package = packageBelow family.base segments ++ "." ++ rest
  distinct : ∀ segments other, AreSegments segments → AreSegments other → segments ≠ other →
    (family.element (nameOf segments)).1 ≠ (family.element (nameOf other)).1
      ∧ (family.element (nameOf segments ++ "_")).1 ≠ (family.element (nameOf other ++ "_")).1
  /-- Parts between dollar signs lead to a package as they are written. -/
  dollar : ∀ parts : List String, 2 ≤ parts.length → (∀ part ∈ parts, IsPart part.toList) →
    (family.element ("$".intercalate parts)).1 = packageBelow family.base parts

theorem namesPackages (family : RuleFamily) (hbase : IsBase family.base) :
    family.NamesPackages where
  exact segments h := by
    rw [show (family.element (nameOf segments)).1 = _ from elementPattern_nameOf hbase h]
    exact ⟨rfl, _, parse_packageBelow hbase h, fun _ => PackagePattern.covers_exact⟩
  below segments h := by
    rw [show (family.element (nameOf segments ++ "_")).1 = _ from elementPattern_mark hbase h]
    exact ⟨rfl, _, parse_packageBelow_mark hbase h, fun _ => PackagePattern.covers_below⟩
  distinct segments other h hother hne := by
    have hpackage : packageBelow family.base segments ≠ packageBelow family.base other :=
      fun heq => hne (packageBelow_inj h hother heq)
    refine ⟨fun heq => hpackage ?_, fun heq => hpackage ((String.append_left_inj ".*").mp ?_)⟩
    · rw [← elementPattern_nameOf hbase h, ← elementPattern_nameOf hbase hother]
      exact heq
    · rw [← elementPattern_mark hbase h, ← elementPattern_mark hbase hother]
      exact heq
  dollar _ htwo h := elementPattern_parts hbase htwo h

/-- A family with elements of several segments. -/
def acmeFamily : RuleFamily := { base := "com.acme" }

theorem acmeFamily_namesPackages : IsBase acmeFamily.base ∧ AreSegments ["model", "v2_x"]
    ∧ IsPart "Model".toList ∧ IsPart "_v2X".toList
    ∧ (acmeFamily.element "modelV2_x").1 = "com.acme.model.v2_x"
    ∧ (acmeFamily.element "modelV2_x_").1 = "com.acme.model.v2_x.*"
    ∧ (acmeFamily.element "Model$_v2X").1 = "com.acme.Model._v2X" := by
  have hbase : IsBase acmeFamily.base :=
    ⟨by decide, by decide +kernel, by decide +kernel, by decide +kernel⟩
  have hsegments : AreSegments ["model", "v2_x"] := by
    refine ⟨by simp, List.forall_mem_cons.mpr ⟨?_, List.forall_mem_singleton.mpr ?_⟩⟩
    · exact ⟨by simp [IsSegmentChar], ⟨'m', _, rfl, rfl⟩, by decide +kernel⟩
    · exact ⟨by simp [IsSegmentChar], ⟨'v', _, rfl, rfl⟩, by decide +kernel⟩
  have hmodel : IsPart "Model".toList := ⟨by simp, by simp, by decide +kernel⟩
  have hlast : IsPart "_v2X".toList := ⟨by simp, by simp, by decide +kernel⟩
  have hnames := namesPackages acmeFamily hbase
  refine ⟨hbase, hsegments, hmodel, hlast, ?_, ?_, ?_⟩
  · exact (hnames.exact _ hsegments).1
  · exact (hnames.below _ hsegments).1
  · exact hnames.dollar ["Model", "_v2X"] (by simp)
      (List.forall_mem_cons.mpr ⟨hmodel, List.forall_mem_singleton.mpr hlast⟩)

end RuleFamily

end PackageAudit
