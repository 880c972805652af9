/-
Texts one behind the other, and the numbers that counts can be.

A text that ends with a line feed, and not inside of a block comment or raw string, can be cut
off: what comes behind it counts as if it stood alone.  And no line is lost between code, comment
and blank.  A line that is not blank holds a character that is not white; its first byte is then
not white either, and the lexer gives every byte to a comment, to a literal or to neither, each of
which makes the line count.  The scanner asks bytes where the test for blank lines asks characters,
so it is this byte on which the two have to agree.
-/
import Mathlib.Data.List.Forall2
import PackageAudit.Proofs.Source.Classification

namespace PackageAudit.Source

open Text Lexer

/-- Whether a region goes on over line ends. -/
def Region.isOpen : Region → Bool
  | .block _ | .rawString => true
  | _ => false

/-! ### One text behind another -/

theorem isQuoted_scanText (language : Language) (text : List Char) :
    (scanText language text).2.isQuoted = false := by
  have hstart : Region.code.isQuoted = false := rfl
  have hregion := congrArg Prod.snd (foldl_countLine_lexed language text hstart).1
  exact hregion ▸ isQuoted_region _

theorem scanText_append {language : Language} {a : List Char} (b : List Char)
    (hend : a = [] ∨ a.getLast? = some '\n') (hopen : (scanText language a).2.isOpen = false) :
    (scanText language (a ++ b)).1 = (scanText language a).1 + (scanText language b).1 := by
  have hcode : (scanText language a).2 = .code := by
    have hquoted := isQuoted_scanText language a
    cases hregion : (scanText language a).2 with
    | code => rfl
    | block depth | rawString => rw [hregion] at hopen; cases hopen
    | quoted quote => rw [hregion] at hquoted; cases hquoted
  have hfold : (lines a).foldl (countLine language) (0, .code)
      = ((scanText language a).1, .code) := Prod.ext rfl hcode
  show ((lines (a ++ b)).foldl (countLine language) (0, .code)).1 = _
  rw [lines_append hend, List.foldl_append, hfold, foldl_countLine_add]
  rfl

/-! ### No line is lost -/

/-- White space in ASCII is white space. -/
theorem isWhite_of_isAsciiWhite {b : UInt8} {c : Char} (h : isAsciiWhite b = true)
    (hc : c.toNat = b.toNat) : isWhite c = true := by
  simp only [isAsciiWhite, Bool.or_eq_true, beq_iff_eq] at h
  unfold isWhite
  rcases h with (((rfl | rfl) | rfl) | rfl) | rfl <;> rw [hc] <;> decide

theorem exists_not_isAsciiWhite {line : List Char} (h : isBlank line = false) :
    ∃ b ∈ Utf8.encode line, isAsciiWhite b = false := by
  obtain ⟨c, hc, hwhite⟩ := List.all_eq_false.mp h
  obtain ⟨b, others, hbytes⟩ := List.exists_cons_of_ne_nil (Utf8.encodeChar_ne_nil c)
  have hmem : b ∈ String.utf8EncodeChar c := hbytes ▸ List.mem_cons_self
  refine ⟨b, List.mem_flatMap.mpr ⟨c, hc, hmem⟩, ?_⟩
  by_contra hascii
  rw [Bool.not_eq_false] at hascii
  have hlow : b.toNat < 128 := by
    simp only [isAsciiWhite, Bool.or_eq_true, beq_iff_eq] at hascii
    rcases hascii with (((rfl | rfl) | rfl) | rfl) | rfl <;> decide
  exact hwhite (isWhite_of_isAsciiWhite hascii (Utf8.encodeChar_of_mem hmem hlow).2)

/-- A line that is not blank counts as code or as comment, whatever its bytes belong to. -/
theorem isCode_or_isComment {line : List Char} {bytes : List (UInt8 × Mark)}
    (h : isBlank line = false) (hbytes : bytes.map Prod.fst = Utf8.encode line) :
    bytes.any isCode = true ∨ bytes.any isComment = true := by
  obtain ⟨b, hb, hwhite⟩ := exists_not_isAsciiWhite h
  rw [← hbytes] at hb
  obtain ⟨⟨_, mark⟩, hentry, rfl⟩ := List.mem_map.mp hb
  cases mark with
  | comment => exact Or.inr (List.any_eq_true.mpr ⟨_, hentry, rfl⟩)
  | literal => exact Or.inl (List.any_eq_true.mpr ⟨_, hentry, rfl⟩)
  | plain => exact Or.inl (List.any_eq_true.mpr ⟨_, hentry, by simpa [isCode] using hwhite⟩)

theorem isBounded_tally {lines : List (List Char × List (UInt8 × Mark))}
    (h : ∀ line ∈ lines, Utf8.encode line.1 = line.2.map Prod.fst) : (tally lines).IsBounded := by
  induction lines with
  | nil => exact ⟨Nat.le_refl _, Nat.le_refl _⟩
  | cons line lines ih =>
      have hrest := ih fun other hother => h other (List.mem_cons_of_mem _ hother)
      have hline : (tally [line]).IsBounded := by
        cases hblank : isBlank line.1 with
        | true => simp [LineCounts.IsBounded, tally, hblank]
        | false =>
            rcases isCode_or_isComment hblank (h line List.mem_cons_self).symm with hcount | hcount
            · cases hother : line.2.any isComment <;>
                simp [LineCounts.IsBounded, tally, hblank, hcount, hother]
            · cases hother : line.2.any isCode <;>
                simp [LineCounts.IsBounded, tally, hblank, hcount, hother]
      rw [tally_cons]
      exact hline.add hrest

theorem isBounded_classify (language : Language) (text : String) :
    (classify language text).IsBounded := by
  obtain ⟨hcounts, hlines⟩ := isLexedWith_uint32 language text
  have hequal : List.Forall₂ (· = ·) ((lines text.toList).map Utf8.encode)
      ((lexedFrom language (.code : LexState UInt32) text.toList).map (·.map Prod.fst)) := by
    rw [List.forall₂_eq_eq_eq]
    exact hlines.symm
  have heach := List.forall₂_map_right_iff.mp (List.forall₂_map_left_iff.mp hequal)
  rw [hcounts]
  exact isBounded_tally fun line hline => (List.forall₂_iff_zip.mp heach).2 hline

/-- No count of a text is greater than the text is long. -/
theorem total_classify_le (language : Language) (text : String) :
    (classify language text).total ≤ text.length := by
  rw [(isLexedWith_uint32 language text).counts]
  show ((lines text.toList).zip _).length ≤ _
  rw [List.length_zip]
  exact Nat.le_trans (Nat.min_le_left _ _)
    (Nat.le_trans (length_lines_le _) (Nat.le_of_eq String.length_toList))

/-- **Counts compose, and account for every line.**  A text that ends with a line feed outside of
block comments and raw strings can be counted apart from what follows; and the lines of any text
are those that are blank and those that are code, comment or both. -/
theorem classify_composes (language : Language) :
    (∀ a b : String, (a = "" ∨ a.toList.getLast? = some '\n') →
      (scanText language a.toList).2.isOpen = false →
      classify language (a ++ b) = classify language a + classify language b)
    ∧ (∀ text, (classify language text).IsBounded)
    ∧ ∀ before line, '\n' ∉ line → isBlank line = false →
      (scanLine language (scanText language before).2 (Utf8.encode line)).code = true
        ∨ (scanLine language (scanText language before).2 (Utf8.encode line)).comment = true := by
  refine ⟨?_, isBounded_classify language, ?_⟩
  · intro a b hend hopen
    have hlist : a.toList = [] ∨ a.toList.getLast? = some '\n' := by
      refine hend.imp (fun heq => ?_) id
      rw [heq]
      rfl
    show (scanText language (a ++ b).toList).1 = _
    rw [String.toList_append, scanText_append b.toList hlist hopen]
    rfl
  · intro before line hline hblank
    obtain ⟨hcode, hcomment, -⟩ :=
      agrees_scanLine language (scanText language before).2 (feed_not_mem_encode hline)
    rw [isQuoted_scanText, Bool.false_and, Bool.or_false] at hcode
    rw [← hcode, ← hcomment]
    exact isCode_or_isComment hblank (map_fst_lex language _ _)

/-- A nested comment with code behind it, and a literal with an opening in it. -/
def nestedComment : String := "/* a /* b */ */ x\n"
@[inherit_doc nestedComment] def quotedOpening : String := "\"/*\"\n"

theorem nestedComment_composes :
    ((scanText .kotlin nestedComment.toList).2.isOpen = false
      ∧ classify .kotlin (nestedComment ++ quotedOpening)
        = classify .kotlin nestedComment + classify .kotlin quotedOpening
      ∧ classify .kotlin nestedComment = ⟨1, 1, 0, 1⟩ ∧ classify .kotlin quotedOpening = ⟨1, 0, 0, 1⟩)
    ∧ ((scanText .kotlin ['/', '*', '\n']).2 = .block 1 ∧ isBlank ['\t', 'x'] = false
      ∧ ((scanLine .kotlin (scanText .kotlin ['/', '*', '\n']).2 (Utf8.encode ['\t', 'x'])).code = true
        ∨ (scanLine .kotlin (scanText .kotlin ['/', '*', '\n']).2
          (Utf8.encode ['\t', 'x'])).comment = true)) := by
  obtain ⟨happend, -, hline⟩ := classify_composes .kotlin
  have hend : nestedComment.toList.getLast? = some '\n' := by decide +kernel
  have hopen : (scanText .kotlin nestedComment.toList).2.isOpen = false := by decide +kernel
  refine ⟨⟨hopen, happend _ _ (Or.inr hend) hopen, ?_, ?_⟩, ?_, ?_, hline _ _ ?_ ?_⟩
  all_goals decide +kernel

end PackageAudit.Source
