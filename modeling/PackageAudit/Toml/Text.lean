/-
Strings of a TOML document.

A string stands between quotes, or between apostrophes, in which no escapes count.  Either
mark may be written three times, and then the string may span lines: a line end right
behind the opening is left out, a line end is one line feed however it is written, and one or
two marks right before the closing belong to the string.
-/
import PackageAudit.Toml.Reader

namespace PackageAudit.Toml

/-- The value of a hexadecimal digit. -/
def hexDigit? (c : Char) : Option Nat :=
  if '0' ≤ c && c ≤ '9' then some (c.toNat - '0'.toNat)
  else if 'a' ≤ c && c ≤ 'f' then some (c.toNat - 'a'.toNat + 10)
  else if 'A' ≤ c && c ≤ 'F' then some (c.toNat - 'A'.toNat + 10)
  else none

/-- The character with a hexadecimal code point.  Surrogates are no characters. -/
def charOfHex? (digits : List Char) : Option Char := do
  let values ← digits.mapM hexDigit?
  let code := values.foldl (fun n d => n * 16 + d) 0
  if code < 0xD800 || (0xE000 ≤ code && code < 0x110000) then some (Char.ofNat code) else none

/-- The character of an escape of one letter. -/
def escape? : Char → Option Char
  | 'b' => some '\x08'
  | 't' => some '\t'
  | 'n' => some '\n'
  | 'f' => some '\x0c'
  | 'r' => some '\r'
  | '"' => some '"'
  | '\\' => some '\\'
  | _ => none

/-- Puts a character in front of a string that was read. -/
def before (c : Char) : Option (List Char × List Char) → Option (List Char × List Char)
  | none => none
  | some (text, rest) => some (c :: text, rest)

/-- Reads what follows an opening quote up to the closing quote. -/
def quotedBody : Reader (List Char)
  | [] => none
  | c :: rest =>
    if c = '"' then some ([], rest)
    else if c = '\\' then
      match rest with
      | 'u' :: a :: b :: c :: d :: rest => do
        before (← charOfHex? [a, b, c, d]) (quotedBody rest)
      | 'U' :: a :: b :: c :: d :: e :: f :: g :: h :: rest => do
        before (← charOfHex? [a, b, c, d, e, f, g, h]) (quotedBody rest)
      | e :: rest => do
        before (← escape? e) (quotedBody rest)
      | [] => none
    else if isPrintable c then before c (quotedBody rest)
    else none

/-- Reads what follows an opening apostrophe up to the closing one. -/
def literalBody : Reader (List Char)
  | [] => none
  | c :: rest =>
    if c = '\'' then some ([], rest)
    else if isPrintable c then before c (literalBody rest)
    else none

/-- The closing of a string between triple marks: the marks that belong to the string, and what
follows. -/
def closing? (mark : Char) (input : List Char) : Option (List Char × List Char) :=
  let run := (input.take 5).takeWhile (· == mark)
  if run.length < 3 then none
  else some (List.replicate (run.length - 3) mark, input.drop run.length)

/-- What becomes of blanks and line ends inside a string that may span lines. -/
inductive Folding where
  /-- They are part of the string. -/
  | none
  /-- Behind a backslash at the end of a line: the line end must follow. -/
  | awaited
  /-- Behind that line end they are left out. -/
  | folded
  deriving DecidableEq, Repr

/-- Reads what follows three opening quotes up to the three that close the string. -/
def spanningQuotedBody : Folding → Reader (List Char)
  | _, [] => none
  | folding, c :: rest =>
    if folding ≠ .none && isBlank c then spanningQuotedBody folding rest
    else if c = '\n' then
      if folding = .none then before '\n' (spanningQuotedBody .none rest)
      else spanningQuotedBody .folded rest
    else if c = '\r' then
      match rest with
      | '\n' :: rest =>
        if folding = .none then before '\n' (spanningQuotedBody .none rest)
        else spanningQuotedBody .folded rest
      | _ => none
    else if folding = .awaited then none
    else if c = '"' then
      match closing? '"' (c :: rest) with
      | some result => some result
      | none => before '"' (spanningQuotedBody .none rest)
    else if c = '\\' then
      match rest with
      | 'u' :: a :: b :: c :: d :: rest => do
        before (← charOfHex? [a, b, c, d]) (spanningQuotedBody .none rest)
      | 'U' :: a :: b :: c :: d :: e :: f :: g :: h :: rest => do
        before (← charOfHex? [a, b, c, d, e, f, g, h]) (spanningQuotedBody .none rest)
      | e :: rest =>
        match escape? e with
        | some c => before c (spanningQuotedBody .none rest)
        | none => spanningQuotedBody .awaited (e :: rest)
      | [] => none
    else if isPrintable c then before c (spanningQuotedBody .none rest)
    else none

/-- Reads what follows three opening apostrophes up to the three that close the string. -/
def spanningLiteralBody : Reader (List Char)
  | [] => none
  | c :: rest =>
    if c = '\'' then
      match closing? '\'' (c :: rest) with
      | some result => some result
      | none => before '\'' (spanningLiteralBody rest)
    else if c = '\r' then
      match rest with
      | '\n' :: rest => before '\n' (spanningLiteralBody rest)
      | _ => none
    else if c = '\n' || isPrintable c then before c (spanningLiteralBody rest)
    else none

/-- Reads a string in one line. -/
def plainString : Reader String :=
  (do
    Reader.char '"'
    String.ofList <$> quotedBody)
  <|> (do
    Reader.char '\''
    String.ofList <$> literalBody)

/-- Reads a string of any form. -/
def string : Reader String :=
  (do
    Reader.literal ['"', '"', '"']
    let _ ← Reader.optional lineEnd
    String.ofList <$> spanningQuotedBody .none)
  <|> (do
    Reader.literal ['\'', '\'', '\'']
    let _ ← Reader.optional lineEnd
    String.ofList <$> spanningLiteralBody)
  <|> plainString

end PackageAudit.Toml
