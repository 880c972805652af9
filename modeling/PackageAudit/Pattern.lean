/-
Package patterns.

A pattern is a package name, possibly with an asterisk at its end: `*` stands for every
package, `com.acme.*` for `com.acme` and all packages below it, `com.acme*` for every
package whose name starts so, and a name without asterisk for that package alone.  Where
several patterns apply, the most specific one decides.
-/
import PackageAudit.PackageFilter
import PackageAudit.Text.White

namespace PackageAudit

/-- Which packages a rule speaks of. -/
inductive PackagePattern where
  /-- That package alone. -/
  | exact (name : String)
  /-- Every package: `*`. -/
  | every
  /-- A package and all packages below it: `base.*`. -/
  | below (base : String)
  /-- The packages whose names start with a stem that does not end in a dot: `stem*`. -/
  | starting (stem : String)
  deriving DecidableEq, Repr

/-- Why a text is no package pattern. -/
inductive PatternError where
  | empty
  /-- An asterisk before the end of the pattern. -/
  | misplacedWildcard (pattern : String)
  deriving DecidableEq, Repr

/-- The message that reports a malformed package pattern. -/
def PatternError.message : PatternError → String
  | .empty => "package pattern is empty"
  | .misplacedWildcard pattern =>
    "'*' is only allowed at the end of a package pattern: `" ++ pattern ++ "`"

namespace PackagePattern

/-- The pattern of a text without white space at its ends. -/
def ofTrimmed (text : List Char) : Except PatternError PackagePattern :=
  let stem := if text.getLast? = some '*' then text.dropLast else text
  if text.isEmpty then .error .empty
  else if stem.contains '*' then .error (.misplacedWildcard (String.ofList text))
  else if text.getLast? = some '*' then
    if stem.isEmpty then .ok .every
    else if stem.getLast? = some '.' then .ok (.below (String.ofList stem.dropLast))
    else .ok (.starting (String.ofList stem))
  else .ok (.exact (String.ofList text))

/-- Reads a pattern.  White space at the ends of the text has no meaning. -/
def parse (text : String) : Except PatternError PackagePattern :=
  ofTrimmed (Text.trim text.toList)

/-- The text of a pattern. -/
def text : PackagePattern → String
  | .exact name => name
  | .every => "*"
  | .below base => base ++ ".*"
  | .starting stem => stem ++ "*"

/-- Whether the pattern stands for every package. -/
def isUniversal : PackagePattern → Bool
  | .every => true
  | _ => false

/-- Whether the pattern stands for a package, among others perhaps. -/
def covers : PackagePattern → String → Bool
  | .exact name, package => package == name
  | .every, _ => true
  | .below base, package => package == base || startsWith package (base ++ ".")
  | .starting stem, package => startsWith package stem

/-- How specific a pattern is.  Zero is left for "no pattern at all". -/
def specificity : PackagePattern → Nat
  | .every => 1
  | .below _ | .starting _ => 3
  | .exact _ => 4

end PackagePattern

end PackageAudit
