/-
Reading text front to back, for documents whose faults are not explained.

A reader takes characters from the front of a text or fails.  Where one of several forms
may stand they are tried in order, so a form that fails takes nothing.
-/
namespace PackageAudit.Toml

/-- A reader of a part of a text. -/
abbrev Reader := StateT (List Char) Option

namespace Reader

/-- Reads one character that meets a condition. -/
def satisfy (accepts : Char → Bool) : Reader Char := fun input =>
  match input with
  | [] => none
  | c :: rest => if accepts c then some (c, rest) else none

/-- Reads one given character. -/
def char (c : Char) : Reader Unit := do
  let _ ← satisfy (· == c)

/-- Reads a given text. -/
def literal : List Char → Reader Unit
  | [] => return ()
  | c :: rest => do
    char c
    literal rest

/-- Reads as many characters as meet a condition. -/
def takeWhile (accepts : Char → Bool) : Reader (List Char) := fun input =>
  some (input.takeWhile accepts, input.dropWhile accepts)

/-- Reads exactly `n` characters, all of which meet a condition. -/
def exactly (accepts : Char → Bool) : Nat → Reader (List Char)
  | 0 => return []
  | n + 1 => do
    let c ← satisfy accepts
    let rest ← exactly accepts n
    return c :: rest

/-- Reads something that may be missing. -/
def optional {α : Type} (reader : Reader α) : Reader (Option α) :=
  (some <$> reader) <|> pure none

/-- Reads items as long as there are any.  An item that takes nothing is not read again. -/
def many {α : Type} (item : Reader α) : Reader (List α) := fun input =>
  match item input with
  | none => some ([], input)
  | some (a, rest) =>
    if rest.length < input.length then
      match many item rest with
      | none => none
      | some (as, rest) => some (a :: as, rest)
    else some ([a], rest)
termination_by input => input.length

/-- Reads at least one item, with separators between items. -/
def separated {α : Type} (item : Reader α) (separator : Reader Unit) : Reader (List α) := do
  let first ← item
  let others ← many do
    separator
    item
  return first :: others

/-- Succeeds at the end of the text. -/
def atEnd : Reader Unit := fun input =>
  if input.isEmpty then some ((), input) else none

/-- Reads a whole text. -/
def runAll {α : Type} (reader : Reader α) (text : List Char) : Option α :=
  match reader text with
  | some (a, []) => some a
  | _ => none

end Reader

/-! ### Blanks, line ends and comments -/

/-- Blanks: the space and the tab. -/
def isBlank (c : Char) : Bool := c == ' ' || c == '\t'

/-- Characters that may stand in a comment: all but controls other than the tab. -/
def isPrintable (c : Char) : Bool := c == '\t' || (0x20 ≤ c.toNat && c.toNat ≠ 0x7F)

/-- Passes over blanks. -/
def blanks : Reader Unit := do
  let _ ← Reader.takeWhile isBlank

/-- Reads a line end: a line feed, with or without a carriage return in front. -/
def lineEnd : Reader Unit := do
  let _ ← Reader.optional (Reader.char '\r')
  Reader.char '\n'

/-- Reads a comment, up to the line end. -/
def comment : Reader Unit := do
  Reader.char '#'
  let _ ← Reader.takeWhile isPrintable

/-- Reads the rest of a line in which nothing but a comment may follow. -/
def restOfLine : Reader Unit := do
  blanks
  let _ ← Reader.optional comment
  lineEnd <|> Reader.atEnd

/-- Passes over blanks, line ends and comments. -/
def gap : Reader Unit := do
  blanks
  let _ ← Reader.many do
    comment <|> lineEnd
    blanks

end PackageAudit.Toml
