/-
What the lines of a text count as.

Lines are scanned one by one, blank ones not at all, and from one line to the next only a region
is carried.  That this comes to the same as lexing the whole text is shown line by line: a line
feed ends the bytes of a line, and the lexer goes on behind it in the state that belongs to the
region carried.  A blank line holds no byte of a delimiter, so the lexer passes over it as well.

The lexer that agrees with the scanner on every text counts open comments in 32 bits.  It can be
replaced by the one without a bound wherever these are enough, and nowhere beyond: the last section
has a text that opens one comment too many.
-/
import Mathlib.Logic.Function.Iterate
import PackageAudit.Proofs.Source.Counts
import PackageAudit.Proofs.Source.Nesting

namespace PackageAudit.Source

open Text Lexer

/-- The lines of a text as bytes with what they belong to: the whole text is lexed, and then cut. -/
def lexedFrom {Depth : Type} [NestingDepth Depth] (language : Language) (state : LexState Depth)
    (text : List Char) : List (List (UInt8 × Mark)) :=
  cut (·.1 == lineFeed) (·.1 == carriageReturn) (lex language ⟨state, []⟩ (Utf8.encode text))

/-- The counts of lines, each given by its text and by its bytes with what they belong to.  A blank
line counts as nothing else; any other counts as code and as comment if one of its bytes does. -/
def tally (lines : List (List Char × List (UInt8 × Mark))) : LineCounts where
  code := lines.countP fun line => !isBlank line.1 && line.2.any isCode
  comment := lines.countP fun line => !isBlank line.1 && line.2.any isComment
  blank := lines.countP fun line => isBlank line.1
  total := lines.length

theorem tally_cons (line : List Char × List (UInt8 × Mark))
    (lines : List (List Char × List (UInt8 × Mark))) :
    tally (line :: lines) = tally [line] + tally lines := by
  ext <;> simp [tally, List.countP_cons, Nat.add_comm]

/-! ### One line -/

section Line

variable {language : Language} {region : Region} {line : List Char}

theorem feed_not_mem_encode (h : '\n' ∉ line) : lineFeed ∉ Utf8.encode line :=
  fun hmem => h (Utf8.mem_of_mem_encode hmem (by decide))

theorem isFeed_of_mem_lex {Depth : Type} [NestingDepth Depth] (h : '\n' ∉ line)
    (lexer : Lexer Depth) :
    ∀ entry ∈ lexer.lex language (Utf8.encode line), (entry.1 == lineFeed) = false := by
  intro entry hentry
  refine beq_false_of_ne fun heq => feed_not_mem_encode h ?_
  rw [← heq, ← map_fst_lex language lexer (Utf8.encode line)]
  exact List.mem_map_of_mem hentry

theorem isDelimiting_of_isBlank (h : isBlank line = true) {b : UInt8} (hb : b ∈ Utf8.encode line) :
    isDelimiting b = false := by
  by_contra hdelimiting
  simp only [isDelimiting, Bool.not_eq_false, Bool.or_eq_true, beq_iff_eq] at hdelimiting
  have hwhite : b.toNat < 128 → isWhite (Char.ofNat b.toNat) = true :=
    fun hascii => List.all_eq_true.mp h _ (Utf8.mem_of_mem_encode hb hascii)
  rcases hdelimiting with ((rfl | rfl) | rfl) | rfl <;> exact absurd (hwhite (by decide)) (by decide)

theorem region_lexState (h : region.isQuoted = false) : region.lexState.region = region := by
  cases region with
  | quoted quote => cases h
  | _ => rfl

/-- A line adds to the counts what the lexer says of it, and the lexer ends in the region that the
next line starts in. -/
theorem countLine_lexed (hregion : region.isQuoted = false) (hline : '\n' ∉ line) :
    countLine language (0, region) line
      = (tally [(line, lex language ⟨region.lexState, []⟩ (Utf8.encode line))],
        (after language ⟨region.lexState, []⟩ (Utf8.encode line)).state.region) := by
  cases hblank : isBlank line with
  | true =>
      rw [after_keeps hregion fun b hb => isDelimiting_of_isBlank hblank hb, region_lexState hregion]
      simp [countLine, tally, hblank]
  | false =>
      obtain ⟨hcode, hcomment, hnext⟩ := agrees_scanLine language region (feed_not_mem_encode hline)
      rw [hregion, Bool.false_and, Bool.or_false] at hcode
      have hone : ∀ p : Bool, (if p = true then 1 else 0) = p.toNat := by
        intro p
        cases p <;> rfl
      simp [countLine, tally, hblank, hcode, hcomment, hnext, List.countP_cons, hone]

/-- A carriage return at the end of a line is the last byte of it, and the lexer passes over it. -/
theorem lex_dropReturn (language : Language) (state : LexState UInt32) (line : List Char) :
    dropReturn (·.1 == carriageReturn) (lex language ⟨state, []⟩ (Utf8.encode line))
        = lex language ⟨state, []⟩ (Utf8.encode (dropReturn (· == '\r') line))
      ∧ (after language ⟨state, []⟩ (Utf8.encode (dropReturn (· == '\r') line))).state.region
        = (after language ⟨state, []⟩ (Utf8.encode line)).state.region := by
  by_cases hreturn : line.getLast? = some '\r'
  · obtain ⟨start, rfl⟩ := List.getLast?_eq_some_iff.mp hreturn
    have hbytes : Utf8.encode (start ++ ['\r']) = Utf8.encode start ++ [carriageReturn] :=
      Utf8.encode_append start ['\r']
    have hdrop : dropReturn (· == '\r') (start ++ ['\r']) = start := dropReturn_concat start rfl
    obtain ⟨mark, hlex, hafter⟩ := lex_return language state (Utf8.encode start)
    rw [hdrop, hbytes, hlex]
    exact ⟨dropReturn_concat _ rfl, hafter.symm⟩
  · have hdrop : dropReturn (· == '\r') line = line :=
      dropReturn_eq_self fun c hc => beq_false_of_ne fun heq => hreturn (heq ▸ hc)
    rw [hdrop]
    refine ⟨dropReturn_eq_self fun entry hlast => beq_false_of_ne fun heq => hreturn ?_, rfl⟩
    have hbyte : (Utf8.encode line).getLast? = some carriageReturn := by
      rw [← map_fst_lex language ⟨state, []⟩ (Utf8.encode line), List.getLast?_map,
        hlast, ← heq]
      rfl
    exact Utf8.getLast?_of_encode hbyte (by decide)

end Line

/-! ### The whole text -/

/-- The lines of a text, from a region on: what they add to the counts, where they lead to, and that
the lexer's lines are the same lines. -/
theorem foldl_countLine_lexed (language : Language) (text : List Char) {region : Region}
    (h : region.isQuoted = false) :
    (lines text).foldl (countLine language) (0, region)
        = (tally ((lines text).zip (lexedFrom language region.lexState text)),
          (after language ⟨region.lexState, []⟩ (Utf8.encode text)).state.region)
      ∧ (lexedFrom language region.lexState text).map (·.map Prod.fst)
        = (lines text).map Utf8.encode := by
  induction text using lineInduction generalizing region with
  | nil => exact ⟨Prod.ext rfl (region_lexState h).symm, rfl⟩
  | last line hline hfeed =>
      have hbytes : lex language ⟨region.lexState, []⟩ (Utf8.encode line) ≠ [] := by
        intro hnil
        have hmap := map_fst_lex language ⟨region.lexState, []⟩ (Utf8.encode line)
        rw [hnil] at hmap
        exact Utf8.encode_ne_nil hline hmap.symm
      rw [lines_last hline hfeed, lexedFrom, cut_last hbytes (isFeed_of_mem_lex hfeed _)]
      refine ⟨countLine_lexed h hfeed, ?_⟩
      rw [List.map_singleton, List.map_singleton, map_fst_lex]
  | feed line rest hline ih =>
      -- The line less its carriage return is counted, and the lexer goes on behind the line feed.
      obtain ⟨hreturn, hregion⟩ := lex_dropReturn language region.lexState line
      obtain ⟨mark, hlex, hafter⟩ :=
        lex_feed language region.lexState (Utf8.encode line) (Utf8.encode rest)
      have hbytes : Utf8.encode (line ++ '\n' :: rest)
          = Utf8.encode line ++ lineFeed :: Utf8.encode rest := Utf8.encode_append line _
      have hlexed : lexedFrom language region.lexState (line ++ '\n' :: rest)
          = lex language ⟨region.lexState, []⟩ (Utf8.encode (dropReturn (· == '\r') line))
            :: lexedFrom language
              (after language ⟨region.lexState, []⟩ (Utf8.encode line)).state.region.lexState rest := by
        rw [lexedFrom, hbytes, hlex, cut_feed _ (isFeed_of_mem_lex hline _) rfl, hreturn]
        rfl
      have hdropped : '\n' ∉ dropReturn (· == '\r') line := fun hmem =>
        hline (mem_of_mem_dropReturn hmem)
      obtain ⟨hcounts, hlines⟩ := ih (isQuoted_region
        (after language ⟨region.lexState, []⟩ (Utf8.encode line)).state)
      rw [lines_feed hline, hlexed, List.foldl_cons, countLine_lexed h hdropped, hregion,
        foldl_countLine_add, hcounts, List.zip_cons_cons, hbytes, hafter]
      refine ⟨Prod.ext (tally_cons _ _).symm rfl, ?_⟩
      rw [List.map_cons, List.map_cons, map_fst_lex, hlines]

/-- The counts of a text are read off one run of the lexer over all of it, whose bytes are cut into
the lines of the text. -/
structure IsLexedWith (Depth : Type) [NestingDepth Depth] (language : Language) (text : String) :
    Prop where
  counts : classify language text
    = tally ((lines text.toList).zip (lexedFrom language (.code : LexState Depth) text.toList))
  lines : (lexedFrom language (.code : LexState Depth) text.toList).map (·.map Prod.fst)
    = (lines text.toList).map Utf8.encode

theorem isLexedWith_uint32 (language : Language) (text : String) :
    IsLexedWith UInt32 language text := by
  have hstart : Region.code.isQuoted = false := rfl
  obtain ⟨hcounts, hlines⟩ := foldl_countLine_lexed language text.toList hstart
  exact ⟨congrArg Prod.fst hcounts, hlines⟩

/-- So many openings one behind the other. -/
def openings (n : Nat) : List UInt8 := (List.replicate n blockOpening).flatten

/-- A text of so many openings, one closing and a letter. -/
def nested (n : Nat) : List Char :=
  (List.replicate n ['/', '*']).flatten ++ ['*', '/', 'x']

theorem encode_nested (n : Nat) :
    Utf8.encode (nested n) = openings n ++ [star, slash, 0x78] := by
  induction n with
  | zero => rfl
  | succ n ih => exact congrArg (slash :: star :: ·) ih

theorem feed_not_mem_nested (n : Nat) : '\n' ∉ nested n := by
  simp [nested, List.mem_replicate]

theorem lines_nested (n : Nat) : lines (nested n) = [nested n] :=
  lines_last (by simp [nested]) (feed_not_mem_nested n)

section Openings

variable {Depth : Type} [NestingDepth Depth]

theorem lex_openings (n : Nat) (depth : Depth) (rest : List UInt8) :
    lex .kotlin ⟨.block depth, []⟩ (openings n ++ rest)
      = (openings n).map (·, .comment)
        ++ lex .kotlin ⟨.block (NestingDepth.deepen^[n] depth), []⟩ rest := by
  induction n generalizing depth with
  | zero => rfl
  | succ n ih => exact congrArg (fun l => (slash, .comment) :: (star, .comment) :: l) (ih _)

/-- Whether the closing ends all comments decides what the letter belongs to. -/
theorem any_isCode_nested (n : Nat) :
    (lex .kotlin (⟨.code, []⟩ : Lexer Depth) (openings (n + 1) ++ [star, slash, 0x78])).any isCode
      = (NestingDepth.close? (NestingDepth.deepen^[n] (NestingDepth.one : Depth))).isNone := by
  have hopening : lex .kotlin (⟨.code, []⟩ : Lexer Depth) (openings (n + 1) ++ [star, slash, 0x78])
      = (slash, .comment) :: (star, .comment)
        :: lex .kotlin ⟨.block NestingDepth.one, []⟩ (openings n ++ [star, slash, 0x78]) := rfl
  rw [hopening, lex_openings]
  have hnone : ((openings n).map (·, Mark.comment)).any isCode = false := by
    simp [isCode]
  have hclosing : ∀ depth : Depth, lex .kotlin ⟨.block depth, []⟩ [star, slash, 0x78]
      = (star, .comment) :: (slash, .comment)
        :: lex .kotlin ⟨(NestingDepth.close? depth).elim .code .block, []⟩ [0x78] := fun _ => rfl
  rw [List.any_cons, List.any_cons, List.any_append, hnone, hclosing]
  cases NestingDepth.close? (NestingDepth.deepen^[n] (NestingDepth.one : Depth)) <;> rfl

/-- The text is a single line, so its counts say whether the letter is code. -/
theorem code_tally_nested (n : Nat) :
    (tally ((lines (nested (n + 1))).zip
        (lexedFrom .kotlin (.code : LexState Depth) (nested (n + 1))))).code
      = (NestingDepth.close? (NestingDepth.deepen^[n] (NestingDepth.one : Depth))).isNone.toNat
        := by
  have hbytes : lex .kotlin (⟨.code, []⟩ : Lexer Depth) (Utf8.encode (nested (n + 1))) ≠ [] := by
    rw [encode_nested]
    exact List.cons_ne_nil _ _
  have hblank : isBlank (nested (n + 1)) = false :=
    List.all_eq_false.mpr ⟨'x', by simp [nested], by decide⟩
  rw [lines_nested, lexedFrom, cut_last hbytes (isFeed_of_mem_lex (feed_not_mem_nested _) _),
    ← any_isCode_nested, ← encode_nested]
  simp only [tally, List.zip_cons_cons, List.zip_nil_left, List.countP_singleton, hblank,
    Bool.not_false, Bool.true_and]
  cases (lex .kotlin (⟨.code, []⟩ : Lexer Depth) (Utf8.encode (nested (n + 1)))).any isCode <;> rfl

end Openings

theorem isNone_close?_nat (depth : Nat) :
    (NestingDepth.close? depth).isNone = decide (depth ≤ 1) := by
  by_cases h : depth ≤ 1
  · simp [NestingDepth.close?, h]
  · simp [NestingDepth.close?, h]

theorem deepen_iterate_nat (n depth : Nat) : NestingDepth.deepen^[n] depth = depth + n := by
  induction n generalizing depth with
  | zero => rfl
  | succ n ih => exact (ih (depth + 1)).trans (Nat.succ_add_eq_add_succ depth n)

theorem deepen_iterate_uint32 (n : Nat) (depth : UInt32) :
    (NestingDepth.deepen^[n] depth).toNat = (depth.toNat + n) % UInt32.size := by
  induction n generalizing depth with
  | zero => exact (Nat.mod_eq_of_lt depth.toNat_lt).symm
  | succ n ih =>
      rw [Function.iterate_succ_apply, ih, deepen_uint32, UInt32.toNat_add, Nat.mod_add_mod,
        Nat.add_right_comm]
      rfl

theorem deepest_openings (n depth : Nat) (rest : List UInt8) :
    deepest .kotlin ⟨.block depth, []⟩ (openings n ++ rest)
      = deepest .kotlin ⟨.block (depth + n), []⟩ rest := by
  induction n generalizing depth with
  | zero => rfl
  | succ n ih =>
      have hopening : deepest .kotlin ⟨.block depth, []⟩ (openings (n + 1) ++ rest)
          = max depth (max (depth + 1)
            (deepest .kotlin ⟨.block (depth + 1), []⟩ (openings n ++ rest))) := rfl
      have hdepth : depth + 1 ≤ deepest .kotlin ⟨.block (depth + 1), []⟩ (openings n ++ rest) :=
        depth_le_deepest .kotlin ⟨.block (depth + 1), []⟩ _
      rw [hopening, Nat.max_eq_right hdepth, Nat.max_eq_right (Nat.le_of_succ_le hdepth), ih,
        Nat.add_right_comm, Nat.add_assoc]

theorem deepest_closing (depth : Nat) :
    deepest .kotlin ⟨.block (depth + 1), []⟩ [star, slash, 0x78] = depth + 1 := by
  cases depth with
  | zero => rfl
  | succ depth =>
      have hclosing : deepest .kotlin ⟨.block (depth + 2), []⟩ [star, slash, 0x78]
          = max (depth + 2) (max (depth + 1) (max (depth + 1) (depth + 1))) := rfl
      rw [hclosing]
      omega

theorem nesting_nested (n : Nat) : nesting .kotlin (String.ofList (nested (n + 1))) = n + 1 := by
  have hopening : deepest .kotlin ⟨.code, []⟩ (openings (n + 1) ++ [star, slash, 0x78])
      = max 0 (max 1 (deepest .kotlin ⟨.block 1, []⟩ (openings n ++ [star, slash, 0x78]))) := rfl
  rw [nesting, String.toList_ofList, encode_nested, hopening, deepest_openings, Nat.add_comm 1 n,
    deepest_closing]
  omega

theorem code_classify_nested (n : Nat) :
    (classify .kotlin (String.ofList (nested (n + 1)))).code
      = (decide ((n + 1) % UInt32.size ≤ 1)).toNat := by
  have hone : (1 : UInt32).toNat = 1 := rfl
  rw [(isLexedWith_uint32 .kotlin _).counts, String.toList_ofList, code_tally_nested,
    ← Option.isNone_map, ← close?_toNat, isNone_close?_nat, one_uint32, deepen_iterate_uint32, hone,
    Nat.add_comm 1 n]

/-- **The bound is exact.**  With as many openings as 32 bits can count, and one more, the number of
open comments is zero again.  So the first closing ends them all, and what follows is code. -/
theorem exists_not_isLexedWith_nat :
    ∃ text, nesting .kotlin text = UInt32.size ∧ ¬IsLexedWith Nat .kotlin text := by
  refine ⟨String.ofList (nested (UInt32.size - 1 + 1)), nesting_nested _, fun h => ?_⟩
  have hcode := congrArg LineCounts.code h.counts
  rw [code_classify_nested, String.toList_ofList, code_tally_nested, deepen_iterate_nat,
    isNone_close?_nat] at hcode
  revert hcode
  decide

end PackageAudit.Source
