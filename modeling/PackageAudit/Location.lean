/-
Location patterns.

A location is the name of a package or class.  A pattern for locations is a text with an
asterisk at its start, at its end, at both or at neither, each of which stands for any
text; `*` alone stands for every location.
-/
import PackageAudit.PackageFilter
import PackageAudit.Text.White

namespace PackageAudit

/-- Which names a location pattern stands for. -/
inductive LocationPattern where
  | exact (name : String)
  | every
  | containing (part : String)
  | ending (tail : String)
  | starting (stem : String)
  deriving DecidableEq, Repr

/-- Why a text is no location pattern. -/
inductive LocationError where
  | empty
  /-- An asterisk inside the pattern, or nothing but two asterisks. -/
  | misplacedWildcard (pattern : String)
  deriving DecidableEq, Repr

/-- The message that reports a malformed location pattern. -/
def LocationError.message : LocationError → String
  | .empty => "location pattern is empty"
  | .misplacedWildcard pattern =>
    "'*' is only allowed at the start or end of a location pattern: `" ++ pattern ++ "`"

namespace LocationPattern

/-- The pattern of a text without white space at its ends. -/
def ofTrimmed (text : List Char) : Except LocationError LocationPattern :=
  let opened := text.head? = some '*'
  let closed := text.getLast? = some '*'
  let tail := if opened then text.drop 1 else text
  let inner := if tail.getLast? = some '*' then tail.dropLast else tail
  if text.isEmpty then .error .empty
  else if text = ['*', '*'] || inner.contains '*' then
    .error (.misplacedWildcard (String.ofList text))
  else if text = ['*'] then .ok .every
  else if opened && closed then .ok (.containing (String.ofList inner))
  else if opened then .ok (.ending (String.ofList inner))
  else if closed then .ok (.starting (String.ofList inner))
  else .ok (.exact (String.ofList text))

/-- Reads a pattern.  White space at the ends of the text has no meaning. -/
def parse (text : String) : Except LocationError LocationPattern :=
  ofTrimmed (Text.trim text.toList)

/-- The text of a pattern. -/
def text : LocationPattern → String
  | .exact name => name
  | .every => "*"
  | .containing part => "*" ++ part ++ "*"
  | .ending tail => "*" ++ tail
  | .starting stem => stem ++ "*"

/-- Whether a list stands somewhere in another. -/
def isInfix (part : List Char) : List Char → Bool
  | [] => part.isEmpty
  | c :: rest => part.isPrefixOf (c :: rest) || isInfix part rest

/-- Whether the pattern stands for a name, among others perhaps. -/
def covers : LocationPattern → String → Bool
  | .exact name, location => location == name
  | .every, _ => true
  | .containing part, location => isInfix part.toList location.toList
  | .ending tail, location => tail.toList.isSuffixOf location.toList
  | .starting stem, location => startsWith location stem

/-- How specific a pattern is: each asterisk makes it less so. -/
def specificity : LocationPattern → Nat
  | .every => 1
  | .containing _ => 2
  | .ending _ | .starting _ => 3
  | .exact _ => 4

end LocationPattern

end PackageAudit
