/-
Cutting a text into lines.

Lines are cut by what an item is, a line feed, a carriage return or neither, and that can be
asked of characters as well as of bytes.  So the cutting is said here for items of any kind.
What is needed of it is how it goes on from one line feed to the next: what lies before the line
feed is one line, less a carriage return at its end, and the lines behind it are those of the
rest.  Then a text that ends with a line feed has no influence on how a text behind it is cut.

For bytes there is one more thing to know: the bytes of a character other than an ASCII one are
none of those that anybody looks for.
-/
import Mathlib.Data.List.Basic
import PackageAudit.Source.LineCounts

namespace PackageAudit.Text

section Cut

variable {α β : Type} (isFeed isReturn : α → Bool)

/-- The lines of some items.  A line ends with a feed, and a return directly before the feed belongs
to the line end; items behind the last feed are one more line. -/
def cut : List α → List (List α)
  | [] => []
  | a :: rest =>
    if isFeed a then [] :: cut rest
    else if isReturn a && rest.head?.any isFeed then cut rest
    else match cut rest with
      | [] => [[a]]
      | line :: others => (a :: line) :: others

/-- A line without a return at its end. -/
def dropReturn (line : List α) : List α :=
  if line.getLast?.any isReturn then line.dropLast else line

variable {isFeed isReturn}

theorem dropReturn_cons {a : α} {line : List α} (h : line ≠ []) :
    dropReturn isReturn (a :: line) = a :: dropReturn isReturn line := by
  obtain ⟨b, rest, rfl⟩ := List.exists_cons_of_ne_nil h
  unfold dropReturn
  rw [List.getLast?_cons_cons, List.dropLast_cons_cons]
  split <;> rfl

theorem dropReturn_concat {a : α} (line : List α) (h : isReturn a = true) :
    dropReturn isReturn (line ++ [a]) = line := by
  rw [dropReturn, List.getLast?_concat, Option.any_some, if_pos h, List.dropLast_concat]

theorem dropReturn_eq_self {line : List α} (h : ∀ a, line.getLast? = some a → isReturn a = false) :
    dropReturn isReturn line = line := by
  refine if_neg fun hany => ?_
  obtain ⟨a, hlast, hreturn⟩ := (Option.any_eq_true _ _).mp hany
  rw [h a hlast] at hreturn
  exact Bool.false_ne_true hreturn

theorem cut_feed {line : List α} {feed : α} (rest : List α)
    (hline : ∀ a ∈ line, isFeed a = false) (hfeed : isFeed feed = true) :
    cut isFeed isReturn (line ++ feed :: rest)
      = dropReturn isReturn line :: cut isFeed isReturn rest := by
  induction line with
  | nil => rw [List.nil_append, cut, if_pos hfeed]; rfl
  | cons a line ih =>
      have ha : isFeed a = false := hline a List.mem_cons_self
      have hrest := ih fun b hb => hline b (List.mem_cons_of_mem _ hb)
      rw [List.cons_append, cut, ha, if_neg Bool.false_ne_true, hrest]
      cases line with
      | nil =>
          -- The feed comes next, so it depends on the item itself.
          cases hreturn : isReturn a <;> simp [dropReturn, hreturn, hfeed]
      | cons b line =>
          have hb : isFeed b = false := hline b (List.mem_cons_of_mem _ List.mem_cons_self)
          rw [dropReturn_cons (List.cons_ne_nil b line)]
          simp [hb]

theorem mem_of_mem_dropReturn {a : α} {line : List α} (h : a ∈ dropReturn isReturn line) :
    a ∈ line := by
  unfold dropReturn at h
  split at h
  · exact List.dropLast_subset line h
  · exact h

theorem cut_last {line : List α} (h : line ≠ []) (hline : ∀ a ∈ line, isFeed a = false) :
    cut isFeed isReturn line = [line] := by
  induction line with
  | nil => exact absurd rfl h
  | cons a line ih =>
      have ha : isFeed a = false := hline a List.mem_cons_self
      rw [cut, ha, if_neg Bool.false_ne_true]
      cases line with
      | nil => simp [cut]
      | cons b line =>
          have hb : isFeed b = false := hline b (List.mem_cons_of_mem _ List.mem_cons_self)
          rw [ih (List.cons_ne_nil b line) fun c hc => hline c (List.mem_cons_of_mem _ hc)]
          simp [hb]

end Cut

/-! ### The lines of a text -/

theorem lines_eq_cut (text : List Char) : lines text = cut (· == '\n') (· == '\r') text := by
  have hfold : text.foldr pushLine (false, [])
      = (text.head?.any (· == '\n'), cut (· == '\n') (· == '\r') text) := by
    induction text with
    | nil => rfl
    | cons c text ih =>
        rw [List.foldr_cons, ih, pushLine, cut]
        by_cases hfeed : c = '\n'
        · simp [hfeed]
        · by_cases hreturn : c = '\r' ∧ text.head?.any (· == '\n') = true
          · simp [hreturn]
          · have hne : (c == '\n') = false := beq_false_of_ne hfeed
            have hkeep : (c == '\r' && text.head?.any (· == '\n')) = false := by
              simpa using hreturn
            cases cut (· == '\n') (· == '\r') text <;> simp [hfeed, hreturn, hne, hkeep]
  rw [lines, hfold]

/-- A text is gone through from one line feed to the next. -/
@[elab_as_elim]
theorem lineInduction {motive : List Char → Prop} (text : List Char) (nil : motive [])
    (last : ∀ line, line ≠ [] → '\n' ∉ line → motive line)
    (feed : ∀ line rest, '\n' ∉ line → motive rest → motive (line ++ '\n' :: rest)) :
    motive text := by
  induction hlength : text.length using Nat.strongRecOn generalizing text with
  | ind length ih =>
      by_cases hfeed : '\n' ∈ text
      · obtain ⟨line, rest, rfl, hline⟩ := List.eq_append_cons_of_mem hfeed
        refine feed line rest hline (ih rest.length ?_ rest rfl)
        rw [← hlength, List.length_append, List.length_cons]
        omega
      · by_cases hnil : text = []
        · rw [hnil]
          exact nil
        · exact last text hnil hfeed

theorem isFeed_eq_false {line : List Char} (h : '\n' ∉ line) :
    ∀ c ∈ line, (c == '\n') = false :=
  fun _ hc => beq_false_of_ne fun heq => h (heq ▸ hc)

theorem lines_feed {line : List Char} (h : '\n' ∉ line) (rest : List Char) :
    lines (line ++ '\n' :: rest) = dropReturn (· == '\r') line :: lines rest := by
  rw [lines_eq_cut, lines_eq_cut, cut_feed rest (isFeed_eq_false h) rfl]

theorem lines_last {line : List Char} (h : line ≠ []) (hfeed : '\n' ∉ line) :
    lines line = [line] := by
  rw [lines_eq_cut, cut_last h (isFeed_eq_false hfeed)]

/-- There are no more lines than characters. -/
theorem length_lines_le (text : List Char) : (lines text).length ≤ text.length := by
  induction text using lineInduction with
  | nil => exact Nat.le_refl 0
  | last line hline hfeed =>
      rw [lines_last hline hfeed]
      exact List.length_pos_iff.mpr hline
  | feed line rest hline ih =>
      rw [lines_feed hline, List.length_cons, List.length_append, List.length_cons]
      omega

/-- Behind a line feed the lines start anew. -/
theorem lines_append {a : List Char} (h : a = [] ∨ a.getLast? = some '\n') (b : List Char) :
    lines (a ++ b) = lines a ++ lines b := by
  induction a using lineInduction with
  | nil => rfl
  | last line hline hfeed =>
      have hlast := h.resolve_left hline
      exact absurd (List.mem_of_getLast? hlast) hfeed
  | feed line rest hline ih =>
      have hrest : rest = [] ∨ rest.getLast? = some '\n' := by
        by_cases hnil : rest = []
        · exact Or.inl hnil
        · have hlast := h.resolve_left (by simp)
          obtain ⟨c, others, rfl⟩ := List.exists_cons_of_ne_nil hnil
          rw [List.getLast?_append_cons, List.getLast?_cons_cons] at hlast
          exact Or.inr hlast
      rw [List.append_assoc, List.cons_append, lines_feed hline, lines_feed hline, ih hrest,
        List.cons_append]

/-! ### The bytes of a line -/

namespace Utf8

/-- An ASCII byte stands for itself, and occurs in no other character. -/
theorem encodeChar_of_mem {b : UInt8} {c : Char} (h : b ∈ String.utf8EncodeChar c)
    (hb : b.toNat < 128) : String.utf8EncodeChar c = [b] ∧ c.toNat = b.toNat := by
  have hone : ∀ n, 128 ≤ n → n < 256 → b ≠ UInt8.ofNat n := by
    intro n hlow hhigh heq
    have hn : b.toNat = n := by rw [heq, UInt8.toNat_ofNat_of_lt' hhigh]
    omega
  unfold String.utf8EncodeChar at h ⊢
  simp only at h ⊢
  by_cases hascii : c.val.toNat ≤ 127
  · rw [if_pos hascii] at h ⊢
    obtain rfl := List.mem_singleton.mp h
    exact ⟨rfl, (UInt8.toNat_ofNat_of_lt' (Nat.lt_of_le_of_lt hascii (by decide))).symm⟩
  · -- All bytes of a longer form have their first bit set.
    rw [if_neg hascii] at h
    exfalso
    split at h
    · simp only [List.mem_cons, List.not_mem_nil, or_false] at h
      rcases h with h | h <;> exact hone _ (by omega) (by omega) h
    · split at h
      · simp only [List.mem_cons, List.not_mem_nil, or_false] at h
        rcases h with h | h | h <;> exact hone _ (by omega) (by omega) h
      · simp only [List.mem_cons, List.not_mem_nil, or_false] at h
        rcases h with h | h | h | h <;> exact hone _ (by omega) (by omega) h

theorem mem_of_mem_encode {b : UInt8} {text : List Char} (h : b ∈ encode text)
    (hb : b.toNat < 128) : Char.ofNat b.toNat ∈ text := by
  obtain ⟨c, hc, hmem⟩ := List.mem_flatMap.mp h
  rw [← (encodeChar_of_mem hmem hb).2, Char.ofNat_toNat]
  exact hc

theorem encode_append (a b : List Char) : encode (a ++ b) = encode a ++ encode b :=
  List.flatMap_append

theorem encode_singleton (c : Char) : encode [c] = String.utf8EncodeChar c := by
  rw [encode, List.flatMap_cons, List.flatMap_nil, List.append_nil]

theorem encodeChar_ne_nil (c : Char) : String.utf8EncodeChar c ≠ [] := by
  unfold String.utf8EncodeChar
  simp only
  split
  · exact List.cons_ne_nil _ _
  · split
    · exact List.cons_ne_nil _ _
    · split <;> exact List.cons_ne_nil _ _

theorem encode_ne_nil {text : List Char} (h : text ≠ []) : encode text ≠ [] := by
  obtain ⟨c, rest, rfl⟩ := List.exists_cons_of_ne_nil h
  simp [encode]

/-- The last byte of a text is ASCII only if its last character is. -/
theorem getLast?_of_encode {b : UInt8} {text : List Char} (h : (encode text).getLast? = some b)
    (hb : b.toNat < 128) : text.getLast? = some (Char.ofNat b.toNat) := by
  rcases List.eq_nil_or_concat text with rfl | ⟨start, c, rfl⟩
  · cases h
  · rw [List.concat_eq_append] at h ⊢
    have hchar : (String.utf8EncodeChar c).getLast? = some b := by
      rw [encode_append, encode_singleton,
        List.getLast?_append_of_ne_nil _ (encodeChar_ne_nil c)] at h
      exact h
    rw [List.getLast?_concat, ← (encodeChar_of_mem (List.mem_of_getLast? hchar) hb).2,
      Char.ofNat_toNat]

end Utf8

end PackageAudit.Text
