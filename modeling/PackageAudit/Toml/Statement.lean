/-
The statements of a TOML document.

A document is a sequence of lines, each of which is empty, sets a key, or opens a table.
Arrays and inline tables lie inside one another at most `maxDepth` deep, and a key has at
most as many parts.
-/
import PackageAudit.Toml.Scalar
import PackageAudit.Toml.Table

namespace PackageAudit.Toml

/-- How deep values may lie inside one another, and how many parts a key may have. -/
def maxDepth : Nat := 79

/-- Characters of a key without quotes. -/
def isBare (c : Char) : Bool := c.isAlphanum || c == '_' || c == '-'

/-- Reads a part of a key, with blanks around it. -/
def keyPart : Reader String := do
  blanks
  let part ← plainString <|> (do
    let first ← Reader.satisfy isBare
    let rest ← Reader.takeWhile isBare
    return String.ofList (first :: rest))
  blanks
  return part

/-- Reads a key. -/
def key : Reader (List String) := do
  let parts ← Reader.separated keyPart (Reader.char '.')
  if parts.length ≤ maxDepth then return parts else failure

/-- Reads a key and its value. -/
def pair (value : Reader TomlValue) : Reader Assignment := do
  let path ← key
  Reader.char '='
  blanks
  return ⟨path, ← value⟩

/-- Reads an array.  A comma may stand behind the last item, and lines may end anywhere. -/
def array (value : Reader TomlValue) : Reader TomlValue := do
  Reader.char '['
  let items ← Reader.optional (Reader.separated
    (do
      gap
      let item ← value
      gap
      return item)
    (Reader.char ','))
  if items.isSome then
    let _ ← Reader.optional (Reader.char ',')
  gap
  Reader.char ']'
  return .array (items.getD [])

/-- Reads an inline table, all in one line. -/
def inlineTable (value : Reader TomlValue) : Reader TomlValue := do
  Reader.char '\x7b'
  blanks
  let pairs ← Reader.optional (Reader.separated
    (do
      let entry ← pair value
      blanks
      return entry)
    (Reader.char ','))
  blanks
  Reader.char '\x7d'
  match Entries.assignAll [] (pairs.getD []) with
  | some entries => return .table (Entries.toValues entries)
  | none => failure

/-- Reads a value that has parts at most `levels` deep. -/
def valueWithin : Nat → Reader TomlValue
  | 0 => scalar
  | levels + 1 => scalar <|> array (valueWithin levels) <|> inlineTable (valueWithin levels)

/-- Reads a value. -/
def value : Reader TomlValue := valueWithin maxDepth

/-- Reads a line that opens a table of an array of tables. -/
def tablesHeader : Reader Header := do
  Reader.literal ['[', '[']
  let path ← key
  Reader.literal [']', ']']
  return .tables path

/-- Reads a line that opens a table. -/
def tableHeader : Reader Header := do
  Reader.char '['
  let path ← key
  Reader.char ']'
  return .table path

/-- Reads the line that opens a table, and the rest of that line. -/
def header : Reader Header := do
  blanks
  let opened ← tablesHeader <|> tableHeader
  restOfLine
  return opened

/-- Reads a line that sets a key. -/
def assignment : Reader Assignment := do
  blanks
  let entry ← pair value
  restOfLine
  return entry

/-- Reads a line without a statement. -/
def emptyLine : Reader Unit := do
  blanks
  let _ ← Reader.optional comment
  lineEnd

/-- Reads lines that set keys, with empty lines in front of each and behind the last. -/
def assignments : Reader (List Assignment) := do
  let entries ← Reader.many do
    let _ ← Reader.many emptyLine
    assignment
  let _ ← Reader.many emptyLine
  return entries

/-- Reads a table: the line that opens it and the keys that are set in it. -/
def tableBlock : Reader TableBlock := do
  let opened ← header
  return ⟨opened, ← assignments⟩

/-- Reads the lines of a document.  A byte order mark in front is passed over. -/
def document : Reader (List Assignment × List TableBlock) := do
  let _ ← Reader.optional (Reader.char '\uFEFF')
  let top ← assignments
  let blocks ← Reader.many tableBlock
  blanks
  let _ ← Reader.optional comment
  Reader.atEnd
  return (top, blocks)

/-- Reads a document into a table. -/
def parse (text : String) : Option TomlValue := do
  let (top, blocks) ← document.runAll text.toList
  let entries ← Entries.assignAll [] top
  let entries ← blocks.foldlM Entries.addBlock entries
  return .table (Entries.toValues entries)

end PackageAudit.Toml
