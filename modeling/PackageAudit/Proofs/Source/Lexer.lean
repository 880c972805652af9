/-
A lexer for source text.

The lexer goes over the bytes of a whole text and says of each what it belongs to: a comment, a
literal, or neither.  It knows nothing of lines, except that a line feed ends a quoted literal
and a line comment.  Where a lexeme starts is decided by the bytes ahead; its bytes are then
gone through one by one, so the lexer carries along what the bytes that are still to come
belong to.

Lexing can be interrupted in front of a byte that goes on with no lexeme, since no decision
before it depends on what follows.  A line end is such a place.  So the lexer can be compared with
the scanner, which sees one line at a time, skips over lexemes and stops early: what the lexer
says of the bytes of the line is what the scanner reports of the line.

The scanner counts open comments in 32 bits.  So the lexer does not say what numbers it counts
them in.  With 32 bits it agrees with the scanner on every text; with numbers that have no bound it
does so as long as comments do not nest deeper than 32 bits can tell.
-/
import PackageAudit.Proofs.Source.Lines

namespace PackageAudit.Source

/-- The bytes that end a line. -/
def lineFeed : UInt8 := 0x0A
@[inherit_doc lineFeed] def carriageReturn : UInt8 := 0x0D

/-- Numbers that tell how many comments are open. -/
class NestingDepth (Depth : Type) where
  /-- A single comment. -/
  one : Depth
  /-- One comment more. -/
  deepen : Depth → Depth
  /-- One comment less, if more than one is open. -/
  close? : Depth → Option Depth

/-- Depths without a bound. -/
instance : NestingDepth Nat where
  one := 1
  deepen depth := depth + 1
  close? depth := if depth ≤ 1 then none else some (depth - 1)

/-- Depths of 32 bits, which start over behind the greatest one. -/
instance : NestingDepth UInt32 where
  one := 1
  deepen depth := depth + 1
  close? depth := if depth ≤ 1 then none else some (depth - 1)

@[simp] theorem one_uint32 : (NestingDepth.one : UInt32) = 1 := rfl

@[simp] theorem deepen_uint32 (depth : UInt32) : NestingDepth.deepen depth = depth + 1 := rfl

/-- What the lexer is inside of. -/
inductive LexState (Depth : Type) where
  | code
  /-- A block comment, `depth` of them open. -/
  | block (depth : Depth)
  | rawString
  /-- A literal that the given quote ends, unless a backslash stands directly before it. -/
  | quoted (quote : UInt8) (escaped : Bool)
  | lineComment
  deriving DecidableEq, Repr

/-- What a byte belongs to. -/
inductive Mark where
  | comment
  | literal
  | plain
  deriving DecidableEq, Repr

/-- A lexeme: what its bytes belong to, how many of them follow the first, and the state behind. -/
structure Lexeme (Depth : Type) where
  mark : Mark
  more : Nat
  state : LexState Depth
  deriving DecidableEq, Repr

/-- The delimiters of more than one byte. -/
def lineOpening : List UInt8 := [slash, slash]
@[inherit_doc lineOpening] def blockOpening : List UInt8 := [slash, star]
@[inherit_doc lineOpening] def blockClosing : List UInt8 := [star, slash]
@[inherit_doc lineOpening] def rawDelimiter : List UInt8 := [doubleQuote, doubleQuote, doubleQuote]

/-- The lexeme that starts with a byte, given the bytes ahead. -/
def lexeme {Depth : Type} [NestingDepth Depth] (language : Language) (state : LexState Depth)
    (b : UInt8) (ahead : List UInt8) : Lexeme Depth :=
  match state with
  | .code =>
    if lineOpening.isPrefixOf (b :: ahead) then ⟨.comment, 1, .lineComment⟩
    else if blockOpening.isPrefixOf (b :: ahead) then ⟨.comment, 1, .block NestingDepth.one⟩
    else if language.rawStrings && rawDelimiter.isPrefixOf (b :: ahead) then
      ⟨.literal, 2, .rawString⟩
    else if b = doubleQuote || b = singleQuote then ⟨.literal, 0, .quoted b false⟩
    else ⟨.plain, 0, .code⟩
  | .block depth =>
    if blockClosing.isPrefixOf (b :: ahead) then
      ⟨.comment, 1, (NestingDepth.close? depth).elim .code .block⟩
    else if language.nestedComments && blockOpening.isPrefixOf (b :: ahead) then
      ⟨.comment, 1, .block (NestingDepth.deepen depth)⟩
    else ⟨.comment, 0, .block depth⟩
  | .rawString =>
    if rawDelimiter.isPrefixOf (b :: ahead) then ⟨.literal, 2, .code⟩
    else ⟨.literal, 0, .rawString⟩
  | .quoted quote escaped =>
    if b = lineFeed then ⟨.plain, 0, .code⟩
    else if escaped then ⟨.literal, 0, .quoted quote false⟩
    else if b = backslash then ⟨.literal, 0, .quoted quote true⟩
    else if b = quote then ⟨.literal, 0, .code⟩
    else ⟨.literal, 0, .quoted quote false⟩
  | .lineComment =>
    if b = lineFeed then ⟨.plain, 0, .code⟩ else ⟨.comment, 0, .lineComment⟩

/-- A lexer at work: the state behind the lexeme at hand, and what those of its bytes belong to that
are still to come. -/
structure Lexer (Depth : Type) where
  state : LexState Depth
  pending : List Mark := []
  deriving DecidableEq, Repr

namespace Lexer

variable {Depth : Type} [NestingDepth Depth]

/-- What the next byte belongs to, and the lexer behind it. -/
def step (language : Language) (lexer : Lexer Depth) (b : UInt8) (ahead : List UInt8) :
    Mark × Lexer Depth :=
  match lexer.pending with
  | mark :: pending => (mark, { lexer with pending })
  | [] =>
    let found := lexeme language lexer.state b ahead
    (found.mark, ⟨found.state, List.replicate found.more found.mark⟩)

/-- The bytes of a text, each with what it belongs to. -/
def lex (language : Language) (lexer : Lexer Depth) : List UInt8 → List (UInt8 × Mark)
  | [] => []
  | b :: ahead =>
    (b, (lexer.step language b ahead).1) :: lex language (lexer.step language b ahead).2 ahead

/-- The lexer behind a text. -/
def after (language : Language) (lexer : Lexer Depth) : List UInt8 → Lexer Depth
  | [] => lexer
  | b :: ahead => after language (lexer.step language b ahead).2 ahead

end Lexer

/-! ### Lexing up to a place where no lexeme goes on -/

/-- Whether no lexeme goes on with the first of some bytes. -/
def IsBreak (bytes : List UInt8) : Prop :=
  ∀ b ∈ bytes.head?, b ≠ slash ∧ b ≠ star ∧ b ≠ doubleQuote

theorem isPrefixOf_append {token tail : List UInt8} (h : ∀ b ∈ tail.head?, b ∉ token)
    (line : List UInt8) : token.isPrefixOf (line ++ tail) = token.isPrefixOf line := by
  induction token generalizing line with
  | nil => rfl
  | cons t token ih =>
      cases line with
      | nil =>
          cases tail with
          | nil => rfl
          | cons b tail =>
              have hb : t ≠ b := fun heq => h b rfl (heq ▸ List.mem_cons_self)
              simp [List.isPrefixOf, hb]
      | cons c line =>
          have hrest := ih (fun b hb hmem => h b hb (List.mem_cons_of_mem _ hmem)) line
          simp [List.isPrefixOf, hrest]

variable {Depth : Type} [NestingDepth Depth] {language : Language} {state : LexState Depth}
  {b : UInt8} {ahead tail : List UInt8}

theorem lexeme_append (h : IsBreak tail) :
    lexeme language state b (ahead ++ tail) = lexeme language state b ahead := by
  have hfree : ∀ token ∈ [lineOpening, blockOpening, blockClosing, rawDelimiter],
      token.isPrefixOf (b :: (ahead ++ tail)) = token.isPrefixOf (b :: ahead) := by
    intro token htoken
    refine isPrefixOf_append (fun c hc hmem => ?_) (b :: ahead)
    obtain ⟨hslash, hstar, hquote⟩ := h c hc
    simp only [List.mem_cons, List.not_mem_nil, or_false] at htoken
    rcases htoken with rfl | rfl | rfl | rfl <;>
      simp [lineOpening, blockOpening, blockClosing, rawDelimiter, hslash, hstar, hquote] at hmem
  unfold lexeme
  rw [hfree _ (by simp), hfree _ (by simp), hfree _ (by simp), hfree _ (by simp)]

theorem more_lexeme_le : (lexeme language state b ahead).more ≤ ahead.length := by
  have hwidth : ∀ token : List UInt8, token.isPrefixOf (b :: ahead) = true →
      token.length - 1 ≤ ahead.length := by
    intro token htoken
    have hle := (List.isPrefixOf_iff_prefix.mp htoken).length_le
    rw [List.length_cons] at hle
    omega
  fun_cases lexeme language state b ahead with
  | case1 h => exact hwidth lineOpening h
  | case2 _ h => exact hwidth blockOpening h
  | case3 _ _ h => exact hwidth rawDelimiter (Bool.and_eq_true_iff.mp h).2
  | case6 _ h => exact hwidth blockClosing h
  | case7 _ _ h => exact hwidth blockOpening (Bool.and_eq_true_iff.mp h).2
  | case9 h => exact hwidth rawDelimiter h
  | _ => exact Nat.zero_le _

namespace Lexer

variable {lexer : Lexer Depth} {line : List UInt8}

theorem step_append (h : IsBreak tail) :
    lexer.step language b (ahead ++ tail) = lexer.step language b ahead := by
  unfold step
  split
  · rfl
  · rw [lexeme_append h]

theorem pending_step_le (h : lexer.pending.length ≤ ahead.length + 1) :
    (lexer.step language b ahead).2.pending.length ≤ ahead.length := by
  unfold step
  split
  · rename_i mark pending hpending
    rw [hpending, List.length_cons] at h
    exact Nat.le_of_succ_le_succ h
  · rw [List.length_replicate]
    exact more_lexeme_le

/-- What is said of the bytes before a break does not depend on what follows, and the lexer starts
a new lexeme there. -/
theorem lex_append (language : Language) (hpending : lexer.pending.length ≤ line.length)
    (h : IsBreak tail) :
    lexer.lex language (line ++ tail)
        = lexer.lex language line ++ (lexer.after language line).lex language tail
      ∧ lexer.after language (line ++ tail)
        = (lexer.after language line).after language tail
      ∧ (lexer.after language line).pending = [] := by
  induction line generalizing lexer with
  | nil => exact ⟨rfl, rfl, List.eq_nil_of_length_eq_zero (Nat.le_zero.mp hpending)⟩
  | cons b line ih =>
      obtain ⟨hlex, hafter, hnone⟩ := ih (pending_step_le hpending)
      rw [List.cons_append, lex, lex, after, after, step_append h]
      exact ⟨by rw [hlex, List.cons_append], hafter, hnone⟩

theorem lex_break (language : Language) (state : LexState Depth) (line : List UInt8)
    (h : IsBreak tail) :
    lex language ⟨state, []⟩ (line ++ tail) = lex language ⟨state, []⟩ line
        ++ lex language ⟨(after language ⟨state, []⟩ line).state, []⟩ tail
      ∧ after language ⟨state, []⟩ (line ++ tail)
        = after language ⟨(after language ⟨state, []⟩ line).state, []⟩ tail := by
  have hstart : (Lexer.mk state []).pending.length ≤ line.length := Nat.zero_le _
  obtain ⟨hlex, hafter, hnone⟩ := lex_append language hstart h
  have hready : after language ⟨state, []⟩ line
      = ⟨(after language ⟨state, []⟩ line).state, []⟩ := congrArg (Lexer.mk _) hnone
  rw [← hready]
  exact ⟨hlex, hafter⟩

/-- The bytes of a lexeme are gone through before the next one starts. -/
theorem lex_pending (language : Language) (state : LexState Depth) (mark : Mark)
    (u rest : List UInt8) :
    lex language ⟨state, List.replicate u.length mark⟩ (u ++ rest)
        = u.map (·, mark) ++ lex language ⟨state, []⟩ rest
      ∧ after language ⟨state, List.replicate u.length mark⟩ (u ++ rest)
        = after language ⟨state, []⟩ rest := by
  induction u with
  | nil => exact ⟨rfl, rfl⟩
  | cons b u ih =>
      refine ⟨?_, ih.2⟩
      exact congrArg ((b, mark) :: ·) ih.1

theorem lex_lexeme {mark : Mark} {next : LexState Depth} {u rest : List UInt8}
    (h : lexeme language state b (u ++ rest) = ⟨mark, u.length, next⟩) :
    lex language ⟨state, []⟩ (b :: (u ++ rest))
        = (b, mark) :: u.map (·, mark) ++ lex language ⟨next, []⟩ rest
      ∧ after language ⟨state, []⟩ (b :: (u ++ rest)) = after language ⟨next, []⟩ rest := by
  have hstep : step language ⟨state, []⟩ b (u ++ rest)
      = (mark, ⟨next, List.replicate u.length mark⟩) := by rw [step, h]
  obtain ⟨hlex, hafter⟩ := lex_pending language next mark u rest
  rw [lex, after, hstep]
  exact ⟨by rw [hlex, List.cons_append], hafter⟩

end Lexer

/-! ### A line as the scanner sees it -/

/-- The state of the lexer inside of a region. -/
def Region.lexState : Region → LexState UInt32
  | .code => .code
  | .block depth => .block depth
  | .rawString => .rawString
  | .quoted quote => .quoted quote false

/-- The region that the next line starts in. -/
def LexState.region : LexState UInt32 → Region
  | .block depth => .block depth
  | .rawString => .rawString
  | _ => .code

/-- Whether the region is a quoted literal. -/
def Region.isQuoted : Region → Bool
  | .quoted _ => true
  | _ => false

/-- Whether a byte makes its line a line of code: it belongs to a literal, or is neither in a comment
nor white. -/
def isCode (entry : UInt8 × Mark) : Bool :=
  entry.2 == .literal || (entry.2 == .plain && !isAsciiWhite entry.1)

/-- Whether a byte makes its line a line of comment. -/
def isComment (entry : UInt8 × Mark) : Bool := entry.2 == .comment

/-- What a scan of a line reports is what the lexer says of its bytes.  The scanner takes it that the
quote of a literal has been seen, so inside of one the bytes need not be reported again. -/
structure Agrees (language : Language) (region : Region) (line : List UInt8) (scan : LineScan) :
    Prop where
  code : (Lexer.lex language ⟨region.lexState, []⟩ line).any isCode
    = (scan.code || (region.isQuoted && !line.isEmpty))
  comment : (Lexer.lex language ⟨region.lexState, []⟩ line).any isComment = scan.comment
  region : (Lexer.after language ⟨region.lexState, []⟩ line).state.region = scan.region

namespace Agrees

theorem nil (region : Region) : Agrees language region [] ⟨false, false, atLineEnd region⟩ := by
  refine ⟨by cases region <;> rfl, rfl, ?_⟩
  cases region <;> rfl

variable {region next : Region} {mark : Mark} {u rest : List UInt8} {scan : LineScan}

/-- One lexeme more in front of a line. -/
theorem cons_lexeme {whole : LineScan} (h : Agrees language next rest scan)
    (hlexeme : lexeme language region.lexState b (u ++ rest) = ⟨mark, u.length, next.lexState⟩)
    (hcode : (whole.code || region.isQuoted)
      = (((b, mark) :: u.map (·, mark)).any isCode || scan.code
        || (next.isQuoted && !rest.isEmpty)))
    (hcomment : whole.comment = (mark == .comment || scan.comment))
    (hregion : whole.region = scan.region) : Agrees language region (b :: (u ++ rest)) whole := by
  obtain ⟨hlex, hafter⟩ := Lexer.lex_lexeme hlexeme
  refine ⟨?_, ?_, ?_⟩
  · rw [hlex, List.any_append, h.code, List.isEmpty_cons, Bool.not_false, Bool.and_true, hcode,
      Bool.or_assoc]
  · rw [hlex, List.any_append, h.comment, hcomment]
    congr 1
    cases mark <;> simp [isComment]
  · rw [hafter, h.region, hregion]

theorem comment_lexeme (h : Agrees language next rest scan) (hregion : region.isQuoted = false)
    (hnext : next.isQuoted = false)
    (hlexeme : lexeme language region.lexState b (u ++ rest)
      = ⟨.comment, u.length, next.lexState⟩) :
    Agrees language region (b :: (u ++ rest)) scan.withComment := by
  refine h.cons_lexeme hlexeme ?_ rfl rfl
  simp [isCode, hregion, hnext, LineScan.withComment]

theorem literal_lexeme (h : Agrees language next rest scan)
    (hlexeme : lexeme language region.lexState b (u ++ rest)
      = ⟨.literal, u.length, next.lexState⟩) :
    Agrees language region (b :: (u ++ rest)) scan.withCode := by
  refine h.cons_lexeme hlexeme ?_ rfl rfl
  simp [isCode, LineScan.withCode]

theorem quoted_lexeme {quote : UInt8} (h : Agrees language next rest scan)
    (hlexeme : lexeme language (.quoted quote false : LexState UInt32) b (u ++ rest)
      = ⟨.literal, u.length, next.lexState⟩) :
    Agrees language (.quoted quote) (b :: (u ++ rest)) scan := by
  refine h.cons_lexeme hlexeme ?_ rfl rfl
  simp [isCode, Region.isQuoted]

theorem white_byte (h : Agrees language .code rest scan) (hwhite : isAsciiWhite b = true)
    (hlexeme : lexeme language (.code : LexState UInt32) b rest = ⟨.plain, 0, .code⟩) :
    Agrees language .code (b :: rest) scan := by
  refine cons_lexeme (u := []) h hlexeme ?_ rfl rfl
  simp [isCode, hwhite, Region.isQuoted]

theorem visible_byte (h : Agrees language .code rest scan) (hwhite : ¬isAsciiWhite b = true)
    (hlexeme : lexeme language (.code : LexState UInt32) b rest = ⟨.plain, 0, .code⟩) :
    Agrees language .code (b :: rest) scan.withCode := by
  refine cons_lexeme (u := []) h hlexeme ?_ rfl rfl
  simp [isCode, hwhite, Region.isQuoted, LineScan.withCode]

end Agrees

theorem lexState_closeBlock (depth : UInt32) :
    (closeBlock depth).lexState = (NestingDepth.close? depth).elim .code .block := by
  simp only [closeBlock, NestingDepth.close?]
  split <;> rfl

theorem isQuoted_closeBlock (depth : UInt32) : (closeBlock depth).isQuoted = false := by
  unfold closeBlock
  split <;> rfl

/-! Whether a delimiter comes next, asked byte by byte. -/

theorem isPrefixOf_two (x y b c : UInt8) (rest : List UInt8) :
    [x, y].isPrefixOf (b :: c :: rest) = (decide (b = x) && decide (c = y)) := by
  simp only [List.isPrefixOf, Bool.and_true, beq_eq_decide, eq_comm]

theorem isPrefixOf_three (x y z b c d : UInt8) (rest : List UInt8) :
    [x, y, z].isPrefixOf (b :: c :: d :: rest)
      = (decide (b = x) && decide (c = y) && decide (d = z)) := by
  simp only [List.isPrefixOf, Bool.and_true, beq_eq_decide, eq_comm, Bool.and_assoc]

/-- All of a line behind the opening of a line comment is comment. -/
theorem lex_lineComment (language : Language) {line : List UInt8} (h : lineFeed ∉ line) :
    Lexer.lex language (⟨.lineComment, []⟩ : Lexer UInt32) line = line.map (·, .comment)
      ∧ Lexer.after language (⟨.lineComment, []⟩ : Lexer UInt32) line = ⟨.lineComment, []⟩ := by
  induction line with
  | nil => exact ⟨rfl, rfl⟩
  | cons b line ih =>
      have hb : b ≠ lineFeed := fun heq => h (heq ▸ List.mem_cons_self)
      have hlexeme : lexeme language (.lineComment : LexState UInt32) b ([] ++ line)
          = ⟨.comment, 0, .lineComment⟩ := if_neg hb
      obtain ⟨hlex, hafter⟩ := Lexer.lex_lexeme (u := []) hlexeme
      obtain ⟨hlexRest, hafterRest⟩ := ih fun hmem => h (List.mem_cons_of_mem _ hmem)
      exact ⟨hlex.trans (congrArg _ hlexRest), hafter.trans hafterRest⟩

theorem Agrees.lineComment {line : List UInt8} (h : lineFeed ∉ line) :
    Agrees language .code (slash :: slash :: line) ⟨false, true, .code⟩ := by
  have hlexeme : lexeme language (.code : LexState UInt32) slash ([slash] ++ line)
      = ⟨.comment, 1, .lineComment⟩ := by
    simp [lexeme, lineOpening]
  obtain ⟨hlex, hafter⟩ := Lexer.lex_lexeme (u := [slash]) hlexeme
  obtain ⟨hlexRest, hafterRest⟩ := lex_lineComment language h
  refine ⟨hlex ▸ ?_, hlex ▸ ?_, ?_⟩
  · rw [hlexRest]
    simp [isCode, Region.isQuoted]
  · simp [isComment]
  · exact congrArg (·.state.region) (hafter.trans hafterRest)

/-- A byte behind a backslash does not end the literal. -/
theorem Agrees.escape {quote c : UInt8} {rest : List UInt8} {scan : LineScan} (hc : c ≠ lineFeed)
    (h : Agrees language (.quoted quote) rest scan) :
    Agrees language (.quoted quote) (backslash :: c :: rest) scan := by
  have hbackslash : lexeme language (.quoted quote false : LexState UInt32) backslash
      ([] ++ c :: rest) = ⟨.literal, 0, .quoted quote true⟩ := rfl
  have hescaped : lexeme language (.quoted quote true : LexState UInt32) c ([] ++ rest)
      = ⟨.literal, 0, .quoted quote false⟩ := if_neg hc
  obtain ⟨hlex, hafter⟩ := Lexer.lex_lexeme (u := []) hbackslash
  obtain ⟨hlexRest, hafterRest⟩ := Lexer.lex_lexeme (u := []) hescaped
  have hboth := hlex.trans (congrArg _ hlexRest)
  refine ⟨hboth ▸ ?_, hboth ▸ ?_, ?_⟩
  · simp [isCode, Region.isQuoted]
  · exact h.comment
  · exact (congrArg (·.state.region) (hafter.trans hafterRest)).trans h.region

/-- A byte that starts no delimiter. -/
theorem lexeme_code_plain (hslash : b ≠ slash) (hdouble : b ≠ doubleQuote)
    (hsingle : b ≠ singleQuote) :
    lexeme language (.code : LexState UInt32) b ahead = ⟨.plain, 0, .code⟩ := by
  simp [lexeme, lineOpening, blockOpening, rawDelimiter, List.isPrefixOf, hslash.symm, hdouble,
    hdouble.symm, hsingle]

theorem ne_of_isAsciiWhite (h : isAsciiWhite b = true) {c : UInt8} (hc : isAsciiWhite c = false) :
    b ≠ c := by
  intro heq
  rw [heq, hc] at h
  exact Bool.false_ne_true h

/-- The scanner reports of a line what the lexer says of its bytes. -/
theorem agrees_scanLine (language : Language) (region : Region) {line : List UInt8}
    (h : lineFeed ∉ line) : Agrees language region line (scanLine language region line) := by
  fun_induction scanLine language region line with
  | case1 region => exact .nil region
  | case2 quote => exact ⟨rfl, rfl, rfl⟩
  | case3 quote c rest ih =>
      exact .escape (fun heq => h (by simp [heq])) (ih fun hmem => h (by simp [hmem]))
  | case4 rest quote hquote ih =>
      have hfeed : quote ≠ lineFeed := fun heq => h (heq ▸ List.mem_cons_self)
      refine Agrees.quoted_lexeme (u := []) (ih fun hmem => h (List.mem_cons_of_mem _ hmem)) ?_
      simp [lexeme, Region.lexState, hfeed, hquote]
  | case5 b rest quote hescape hquote ih =>
      have hfeed : b ≠ lineFeed := fun heq => h (heq ▸ List.mem_cons_self)
      refine Agrees.quoted_lexeme (u := []) (ih fun hmem => h (List.mem_cons_of_mem _ hmem)) ?_
      simp [lexeme, Region.lexState, hfeed, hescape, hquote]
  | case6 b depth =>
      refine Agrees.comment_lexeme (u := []) (.nil (.block depth)) rfl rfl ?_
      simp [lexeme, Region.lexState, blockClosing, blockOpening, List.isPrefixOf]
  | case7 b depth c rest hclose ih =>
      refine Agrees.comment_lexeme (u := [c]) (ih fun hmem => h (by simp [hmem])) rfl
        (isQuoted_closeBlock depth) ?_
      rw [lexState_closeBlock]
      simp [lexeme, Region.lexState, blockClosing, isPrefixOf_two, hclose]
  | case8 b depth c rest hclose hopen ih =>
      refine Agrees.comment_lexeme (u := [c]) (ih fun hmem => h (by simp [hmem])) rfl rfl ?_
      simp only [Bool.and_assoc] at hopen
      simp [lexeme, Region.lexState, blockClosing, blockOpening, isPrefixOf_two, hclose, hopen]
  | case9 b depth c rest hclose hopen ih =>
      refine Agrees.comment_lexeme (u := []) (ih fun hmem => h (by simp [hmem])) rfl rfl ?_
      simp only [Bool.and_assoc] at hopen
      simp [lexeme, Region.lexState, blockClosing, blockOpening, isPrefixOf_two, hclose, hopen]
  | case10 b c d rest hclose ih =>
      refine Agrees.literal_lexeme (u := [c, d]) (ih fun hmem => h (by simp [hmem])) ?_
      simp [lexeme, Region.lexState, rawDelimiter, isPrefixOf_three, hclose]
  | case11 b c d rest hclose ih =>
      refine Agrees.literal_lexeme (u := []) (ih fun hmem => h (by simp [hmem])) ?_
      simp [lexeme, Region.lexState, rawDelimiter, isPrefixOf_three, hclose]
  | case12 b c =>
      have hlast : Agrees language .rawString [c] ⟨true, false, .rawString⟩ := by
        refine Agrees.literal_lexeme (u := []) (.nil .rawString) ?_
        simp [lexeme, Region.lexState, rawDelimiter, List.isPrefixOf]
      refine Agrees.literal_lexeme (u := []) hlast ?_
      simp [lexeme, Region.lexState, rawDelimiter, List.isPrefixOf]
  | case13 b =>
      refine Agrees.literal_lexeme (u := []) (.nil .rawString) ?_
      simp [lexeme, Region.lexState, rawDelimiter, List.isPrefixOf]
  | case14 b rest hwhite ih =>
      have hplain : lexeme language (.code : LexState UInt32) b rest = ⟨.plain, 0, .code⟩ :=
        lexeme_code_plain (ne_of_isAsciiWhite hwhite rfl) (ne_of_isAsciiWhite hwhite rfl)
          (ne_of_isAsciiWhite hwhite rfl)
      exact (ih fun hmem => h (by simp [hmem])).white_byte hwhite hplain
  | case15 b hwhite =>
      by_cases hquote : (decide (b = doubleQuote) || decide (b = singleQuote)) = true
      · refine Agrees.literal_lexeme (u := []) (.nil (.quoted b)) ?_
        simp [lexeme, Region.lexState, lineOpening, blockOpening, rawDelimiter, List.isPrefixOf,
          hquote]
      · have hplain : lexeme language (.code : LexState UInt32) b [] = ⟨.plain, 0, .code⟩ := by
          simp [lexeme, lineOpening, blockOpening, rawDelimiter, List.isPrefixOf, hquote]
        exact (Agrees.nil .code).visible_byte hwhite hplain
  | case16 b hwhite c rest hline =>
      obtain ⟨rfl, rfl⟩ : b = slash ∧ c = slash := by simpa using hline
      exact .lineComment fun hmem => h (by simp [hmem])
  | case17 b hwhite c rest hline hblock ih =>
      refine Agrees.comment_lexeme (u := [c]) (ih fun hmem => h (by simp [hmem])) rfl rfl ?_
      simp [lexeme, Region.lexState, lineOpening, blockOpening, isPrefixOf_two, hline, hblock]
  | case18 b hwhite c hline hblock hquote d rest hraw ih =>
      refine Agrees.literal_lexeme (u := [c, d]) (ih fun hmem => h (by simp [hmem])) ?_
      simp only [Bool.and_assoc] at hraw
      simp [lexeme, Region.lexState, lineOpening, blockOpening, rawDelimiter, isPrefixOf_two,
        isPrefixOf_three, Bool.and_assoc, hline, hblock, hraw]
  | case19 b hwhite c hline hblock hquote d rest hraw ih =>
      refine Agrees.literal_lexeme (u := []) (ih fun hmem => h (by simp [hmem])) ?_
      simp only [Bool.and_assoc] at hraw
      simp [lexeme, Region.lexState, lineOpening, blockOpening, rawDelimiter, isPrefixOf_two,
        isPrefixOf_three, Bool.and_assoc, hline, hblock, hraw, hquote]
  | case20 b hwhite c hline hblock hquote ih =>
      refine Agrees.literal_lexeme (u := []) (ih fun hmem => h (by simp [hmem])) ?_
      simp [lexeme, Region.lexState, lineOpening, blockOpening, rawDelimiter, isPrefixOf_two,
        List.isPrefixOf, hline, hblock, hquote]
  | case21 b hwhite c rest hline hblock hquote ih =>
      have hdouble : doubleQuote ≠ b := fun heq => hquote (by simp [heq])
      have hplain : lexeme language (.code : LexState UInt32) b (c :: rest)
          = ⟨.plain, 0, .code⟩ := by
        simp [lexeme, lineOpening, blockOpening, rawDelimiter, isPrefixOf_two, List.isPrefixOf,
          hline, hblock, hquote, hdouble]
      exact (ih fun hmem => h (by simp [hmem])).visible_byte hwhite hplain

/-! ### Line ends -/

theorem map_fst_lex (language : Language) (lexer : Lexer Depth) (bytes : List UInt8) :
    (lexer.lex language bytes).map Prod.fst = bytes := by
  induction bytes generalizing lexer with
  | nil => rfl
  | cons b bytes ih => exact congrArg (b :: ·) (ih _)

/-- Whether a byte occurs in a delimiter. -/
def isDelimiting (b : UInt8) : Bool :=
  b == slash || b == star || b == doubleQuote || b == singleQuote

/-- A byte of no delimiter makes no difference outside of quoted literals. -/
theorem lexeme_keeps (language : Language) (region : Region) (h : region.isQuoted = false)
    (hb : isDelimiting b = false) (ahead : List UInt8) :
    ∃ mark, lexeme language region.lexState b ahead = ⟨mark, 0, region.lexState⟩ := by
  simp only [isDelimiting, Bool.or_eq_false_iff, beq_eq_false_iff_ne, ne_eq] at hb
  obtain ⟨⟨⟨hslash, hstar⟩, hdouble⟩, hsingle⟩ := hb
  cases region with
  | code => exact ⟨.plain, lexeme_code_plain hslash hdouble hsingle⟩
  | block depth =>
      refine ⟨.comment, ?_⟩
      simp [lexeme, Region.lexState, blockOpening, blockClosing, List.isPrefixOf, Ne.symm hslash,
        Ne.symm hstar]
  | rawString =>
      refine ⟨.literal, ?_⟩
      simp [lexeme, Region.lexState, rawDelimiter, List.isPrefixOf, Ne.symm hdouble]
  | quoted quote => cases h

theorem isQuoted_region (state : LexState UInt32) : state.region.isQuoted = false := by
  cases state <;> rfl

/-- A line feed leads to the region that the next line starts in. -/
theorem lexeme_feed (language : Language) (state : LexState UInt32) (ahead : List UInt8) :
    ∃ mark, lexeme language state lineFeed ahead = ⟨mark, 0, state.region.lexState⟩ := by
  cases state with
  | code => exact lexeme_keeps language .code rfl rfl ahead
  | block depth => exact lexeme_keeps language (.block depth) rfl rfl ahead
  | rawString => exact lexeme_keeps language .rawString rfl rfl ahead
  | quoted quote escaped => exact ⟨.plain, rfl⟩
  | lineComment => exact ⟨.plain, rfl⟩

/-- A carriage return has no influence on where the next line starts. -/
theorem lexeme_return (language : Language) (state : LexState UInt32) (ahead : List UInt8) :
    ∃ mark next, lexeme language state carriageReturn ahead = ⟨mark, 0, next⟩
      ∧ next.region = state.region := by
  have hkeeps : ∀ region : Region, region.isQuoted = false →
      ∃ mark next, lexeme language region.lexState carriageReturn ahead = ⟨mark, 0, next⟩
        ∧ next.region = region.lexState.region := by
    intro region h
    obtain ⟨mark, hmark⟩ := lexeme_keeps language region h (b := carriageReturn) rfl ahead
    exact ⟨mark, region.lexState, hmark, rfl⟩
  cases state with
  | code => exact hkeeps .code rfl
  | block depth => exact hkeeps (.block depth) rfl
  | rawString => exact hkeeps .rawString rfl
  | quoted quote escaped =>
      cases escaped with
      | true => exact ⟨.literal, .quoted quote false, rfl, rfl⟩
      | false =>
          by_cases hquote : carriageReturn = quote
          · exact ⟨.literal, .code, if_pos hquote, rfl⟩
          · exact ⟨.literal, .quoted quote false, if_neg hquote, rfl⟩
  | lineComment => exact ⟨.comment, .lineComment, rfl, rfl⟩

theorem isBreak_feed (rest : List UInt8) : IsBreak (lineFeed :: rest) := by
  intro b hb
  obtain rfl : lineFeed = b := Option.some.inj hb
  decide

theorem isBreak_return (rest : List UInt8) : IsBreak (carriageReturn :: rest) := by
  intro b hb
  obtain rfl : carriageReturn = b := Option.some.inj hb
  decide

namespace Lexer

variable {region : Region} {line : List UInt8}

/-- Bytes of no delimiter leave the lexer where it is, outside of quoted literals. -/
theorem after_keeps (h : region.isQuoted = false) (hline : ∀ b ∈ line, isDelimiting b = false) :
    after language ⟨region.lexState, []⟩ line = ⟨region.lexState, []⟩ := by
  induction line with
  | nil => rfl
  | cons b line ih =>
      obtain ⟨mark, hlexeme⟩ := lexeme_keeps language region h (hline b List.mem_cons_self) line
      have hafter := (lex_lexeme (u := []) hlexeme).2
      exact hafter.trans (ih fun c hc => hline c (List.mem_cons_of_mem _ hc))

/-- A line feed ends the line before it and starts the next one. -/
theorem lex_feed (language : Language) (state : LexState UInt32) (line rest : List UInt8) :
    ∃ mark, lex language ⟨state, []⟩ (line ++ lineFeed :: rest)
        = lex language ⟨state, []⟩ line ++ (lineFeed, mark)
          :: lex language ⟨(after language ⟨state, []⟩ line).state.region.lexState, []⟩ rest
      ∧ after language ⟨state, []⟩ (line ++ lineFeed :: rest)
        = after language ⟨(after language ⟨state, []⟩ line).state.region.lexState, []⟩ rest := by
  obtain ⟨hlex, hafter⟩ := lex_break language state line (isBreak_feed rest)
  obtain ⟨mark, hlexeme⟩ := lexeme_feed language (after language ⟨state, []⟩ line).state rest
  obtain ⟨hlexFeed, hafterFeed⟩ := lex_lexeme (u := []) hlexeme
  exact ⟨mark, hlex.trans (congrArg _ hlexFeed), hafter.trans hafterFeed⟩

/-- A carriage return at the end of a line is a byte more, and nothing else. -/
theorem lex_return (language : Language) (state : LexState UInt32) (line : List UInt8) :
    ∃ mark, lex language ⟨state, []⟩ (line ++ [carriageReturn])
        = lex language ⟨state, []⟩ line ++ [(carriageReturn, mark)]
      ∧ (after language ⟨state, []⟩ (line ++ [carriageReturn])).state.region
        = (after language ⟨state, []⟩ line).state.region := by
  obtain ⟨hlex, hafter⟩ := lex_break language state line (isBreak_return [])
  obtain ⟨mark, next, hlexeme, hregion⟩ :=
    lexeme_return language (after language ⟨state, []⟩ line).state []
  obtain ⟨hlexReturn, hafterReturn⟩ := lex_lexeme (u := []) hlexeme
  refine ⟨mark, hlex.trans (congrArg _ hlexReturn), ?_⟩
  rw [hafter.trans hafterReturn]
  exact hregion

end Lexer

end PackageAudit.Source
