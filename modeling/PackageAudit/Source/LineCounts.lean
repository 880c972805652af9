/-
Counting lines of source text.

A line with nothing but white space is blank.  Every other line is code, comment or both:
comment if some of it lies in a comment, code if some of it lies in a string or outside
comments.  The scanner walks along the bytes of a line.  Block comments and raw strings
go on in the next line; quoted literals and line comments end with the line.
-/
import PackageAudit.Source.Language
import PackageAudit.Text.Lines
import PackageAudit.Text.Utf8
import PackageAudit.Text.White

namespace PackageAudit

/-- How many lines are code, comment and blank, and how many there are.  A line may be both code
and comment.  A text has no more lines than characters, and a package none that its sources do not
have, so the numbers are not bounded here. -/
structure LineCounts where
  code : Nat := 0
  comment : Nat := 0
  blank : Nat := 0
  total : Nat := 0
  deriving DecidableEq, Repr

namespace LineCounts

/-- Counts of two texts together. -/
def add (a b : LineCounts) : LineCounts :=
  ⟨a.code + b.code, a.comment + b.comment, a.blank + b.blank, a.total + b.total⟩

instance : Add LineCounts := ⟨add⟩

end LineCounts

namespace Source

/-- What the scanner is inside of. -/
inductive Region where
  | code
  /-- A block comment, `depth` of them open.  The number has 32 bits and starts over behind the
  greatest one. -/
  | block (depth : UInt32)
  | rawString
  /-- A literal that the given quote ends. -/
  | quoted (quote : UInt8)
  deriving DecidableEq, Repr

/-- What a line holds, and what region the next line starts in. -/
structure LineScan where
  code : Bool
  comment : Bool
  region : Region
  deriving DecidableEq, Repr

namespace LineScan

/-- Marks the line as code. -/
def withCode (scan : LineScan) : LineScan := { scan with code := true }

/-- Marks the line as comment. -/
def withComment (scan : LineScan) : LineScan := { scan with comment := true }

end LineScan

/-- The bytes that the scanner looks for. -/
def slash : UInt8 := 0x2F
@[inherit_doc slash] def star : UInt8 := 0x2A
@[inherit_doc slash] def doubleQuote : UInt8 := 0x22
@[inherit_doc slash] def singleQuote : UInt8 := 0x27
@[inherit_doc slash] def backslash : UInt8 := 0x5C

/-- ASCII white space: tab, line feed, form feed, carriage return and space. -/
def isAsciiWhite (b : UInt8) : Bool :=
  b == 0x09 || b == 0x0A || b == 0x0C || b == 0x0D || b == 0x20

/-- The region after a block comment is closed. -/
def closeBlock (depth : UInt32) : Region :=
  if depth ≤ 1 then .code else .block (depth - 1)

/-- What the next line starts in when a line ends: quoted literals do not go on. -/
def atLineEnd : Region → Region
  | .quoted _ => .code
  | region => region

/-- Scans the bytes of a line from a region on. -/
def scanLine (language : Language) (region : Region) : List UInt8 → LineScan
  | [] => ⟨false, false, atLineEnd region⟩
  | b :: rest =>
    match region with
    | .quoted quote =>
      if b = backslash then
        match rest with
        | [] => ⟨false, false, .code⟩
        | _ :: rest₁ => scanLine language (.quoted quote) rest₁
      else if b = quote then scanLine language .code rest
      else scanLine language (.quoted quote) rest
    | .block depth =>
      match rest with
      | [] => ⟨false, true, .block depth⟩
      | c :: rest₁ =>
        if b = star && c = slash then
          (scanLine language (closeBlock depth) rest₁).withComment
        else if language.nestedComments && b = slash && c = star then
          (scanLine language (.block (depth + 1)) rest₁).withComment
        else (scanLine language (.block depth) (c :: rest₁)).withComment
    | .rawString =>
      match rest with
      | c :: d :: rest₂ =>
        if b = doubleQuote && c = doubleQuote && d = doubleQuote then
          (scanLine language .code rest₂).withCode
        else (scanLine language .rawString (c :: d :: rest₂)).withCode
      | [_] | [] => ⟨true, false, .rawString⟩
    | .code =>
      if isAsciiWhite b then scanLine language .code rest
      else match rest with
        | [] => ⟨true, false, .code⟩
        | c :: rest₁ =>
          if b = slash && c = slash then ⟨false, true, .code⟩
          else if b = slash && c = star then
            (scanLine language (.block 1) rest₁).withComment
          else if b = doubleQuote || b = singleQuote then
            match rest₁ with
            | d :: rest₂ =>
              if language.rawStrings && b = doubleQuote && c = doubleQuote && d = doubleQuote then
                (scanLine language .rawString rest₂).withCode
              else (scanLine language (.quoted b) (c :: d :: rest₂)).withCode
            | [] => (scanLine language (.quoted b) [c]).withCode
          else (scanLine language .code (c :: rest₁)).withCode

/-- Whether a line is blank. -/
def isBlank (line : List Char) : Bool := line.all Text.isWhite

/-- What one line adds to the counts, and the region behind it.  A blank line leaves the region
as it is. -/
def countLine (language : Language) (counts : LineCounts × Region) (line : List Char) :
    LineCounts × Region :=
  let (counts, region) := counts
  if isBlank line then
    ({ counts with blank := counts.blank + 1, total := counts.total + 1 }, region)
  else
    let scan := scanLine language region (Text.Utf8.encode line)
    ({ counts with
        code := counts.code + scan.code.toNat
        comment := counts.comment + scan.comment.toNat
        total := counts.total + 1 }, scan.region)

/-- The counts of a text together with the region that its end lies in. -/
def scanText (language : Language) (text : List Char) : LineCounts × Region :=
  (Text.lines text).foldl (countLine language) ({}, .code)

/-- The line counts of a text. -/
def classify (language : Language) (text : String) : LineCounts :=
  (scanText language text.toList).1

end Source

end PackageAudit
