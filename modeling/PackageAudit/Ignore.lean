/-
Findings that are known and accepted.

An ignore pattern names a location, or with an arrow a dependency from one location to
another.  Patterns stand in entries that say why; a pattern that suppresses nothing is
reported, so that entries which are no longer needed come to light.
-/
import PackageAudit.Location
import PackageAudit.Usage

namespace PackageAudit

/-- What is ignored: whatever starts at a location, or only what leads from there to another.
`text` is the pattern as it was written. -/
structure IgnorePattern where
  text : String
  source : LocationPattern
  target : Option LocationPattern
  deriving DecidableEq, Repr

/-- An ignore pattern with a malformed location pattern in it. -/
structure IgnoreError where
  pattern : String
  cause : LocationError
  deriving DecidableEq, Repr

/-- The message that reports a malformed ignore pattern. -/
def IgnoreError.message (e : IgnoreError) : String :=
  "invalid ignore pattern `" ++ e.pattern ++ "`: " ++ e.cause.message

namespace IgnorePattern

/-- Cuts a text at the first arrow. -/
def splitArrow : List Char → Option (List Char × List Char)
  | [] => none
  | c :: rest =>
    match c, rest with
    | '-', '>' :: after => some ([], after)
    | _, _ => (splitArrow rest).map fun (before, after) => (c :: before, after)

/-- Reads the location pattern on one side of an ignore pattern. -/
def parseSide (pattern side : String) : Except IgnoreError LocationPattern :=
  match LocationPattern.parse side with
  | .ok location => .ok location
  | .error cause => .error ⟨pattern, cause⟩

/-- Reads `from` or `from -> to`. -/
def parse (pattern : String) : Except IgnoreError IgnorePattern :=
  let text := String.ofList (Text.trim pattern.toList)
  match splitArrow pattern.toList with
  | none => do
    let source ← parseSide pattern pattern
    return ⟨text, source, none⟩
  | some (before, after) => do
    let source ← parseSide pattern (String.ofList before)
    let target ← parseSide pattern (String.ofList after)
    return ⟨text, source, some target⟩

/-- Whether the pattern takes in a dependency. -/
def coversEdge (pattern : IgnorePattern) (source target : String) : Bool :=
  pattern.source.covers source &&
    match pattern.target with
    | none => true
    | some location => location.covers target

/-- Whether the pattern takes in what is said of a single name.  A pattern with an arrow never does. -/
def coversName (pattern : IgnorePattern) (name : String) : Bool :=
  pattern.target.isNone && pattern.source.covers name

end IgnorePattern

/-- Ignore patterns with the reason for them. -/
structure IgnoreEntry where
  because : String
  patterns : List IgnorePattern
  deriving DecidableEq, Repr

/-- Reads the patterns of an entry; the first malformed one counts. -/
def IgnoreEntry.parse (because : String) (patterns : List String) :
    Except IgnoreError IgnoreEntry := do
  return ⟨because, ← patterns.mapM IgnorePattern.parse⟩

/-- Names an ignore pattern by its reason and its text. -/
structure IgnoreKey where
  because : String
  pattern : String
  deriving DecidableEq, Repr

instance : Ord IgnoreKey :=
  ⟨compareLex (compareOn IgnoreKey.because) (compareOn IgnoreKey.pattern)⟩

/-- Ignore patterns with their keys, and a counter of what they suppressed. -/
structure IgnoreFilter where
  patterns : List (IgnoreKey × IgnorePattern)
  usage : UsageCounter IgnoreKey

namespace IgnoreFilter

/-- A filter that has suppressed nothing so far. -/
def ofEntries (entries : List IgnoreEntry) : IgnoreFilter :=
  let patterns := entries.flatMap fun entry =>
    entry.patterns.map fun pattern => (⟨entry.because, pattern.text⟩, pattern)
  { patterns
    usage := patterns.foldl (fun usage (key, _) => usage.declare key) {} }

/-- The keys of the patterns that take in an item. -/
def covering {α : Type} (filter : IgnoreFilter) (covers : IgnorePattern → α → Bool) (item : α) :
    List IgnoreKey :=
  (filter.patterns.filter fun (_, pattern) => covers pattern item).map Prod.fst

/-- Keeps the items that no pattern takes in and counts the others.  Each pattern that takes in
an item has been of use. -/
def retain {α : Type} (filter : IgnoreFilter) (covers : IgnorePattern → α → Bool)
    (items : List α) : (List α × Nat) × IgnoreFilter :=
  let isCovered := fun item => !(filter.covering covers item).isEmpty
  let used := items.flatMap (filter.covering covers)
  ((items.filter fun item => !isCovered item, (items.filter isCovered).length),
    { filter with usage := used.foldl UsageCounter.record filter.usage })

/-- The patterns that have suppressed nothing so far, in order. -/
def unused (filter : IgnoreFilter) : List IgnoreKey := filter.usage.unused

end IgnoreFilter

end PackageAudit
