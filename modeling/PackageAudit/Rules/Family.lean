/-
Rules for the packages below one base package.

Element names are written in camel case, and each upper-case letter starts a new part:
`modelImpl` below `com.acme` stands for `com.acme.model.impl`.  An underscore at the end
takes in all packages below, and a name with `$` in it is cut at each `$` instead, with
its letters kept as they are.
-/
import PackageAudit.Rules.RuleSet
import PackageAudit.Text.Case

namespace PackageAudit

/-- A base package, the patterns that were registered below it in order, and the relations between
patterns. -/
structure RuleFamily where
  base : String
  elements : List String := []
  relations : List Relation := []
  deriving DecidableEq, Repr

namespace RuleFamily

/-- The characters that a letter of an element name adds to a package name.  `out` is what
was written so far, and `isLast` marks the last letter of the name. -/
def elementChars (dollar : Bool) (out : List Char) (isFirst isLast : Bool) (c : Char) : List Char :=
  if c = '_' && isLast then
    if out.isEmpty || out.getLast? = some '.' then ['*'] else ['.', '*']
  else if dollar then [if c = '$' && !isFirst then '.' else c]
  else if Text.isUpper c then
    (if isFirst then [] else ['.']) ++ Text.toLower c
  else [c]

/-- Writes out the letters of an element name behind what was written so far. -/
def expandFrom (dollar : Bool) (out : List Char) (isFirst : Bool) : List Char → List Char
  | [] => out
  | c :: rest =>
    expandFrom dollar (out ++ elementChars dollar out isFirst rest.isEmpty c) false rest

/-- The package name or pattern, relative to the base, that an element name stands for. -/
def expand (name : List Char) : List Char :=
  expandFrom (name.contains '$') [] true name

/-- A pattern below a base. -/
def under (base : String) (sub : String) : String :=
  if !base.isEmpty && base.toList.getLast? ≠ some '.' && !sub.isEmpty then base ++ "." ++ sub
  else base ++ sub

/-- Registers a pattern, unless it is there. -/
def register (family : RuleFamily) (pattern : String) : RuleFamily :=
  if family.elements.contains pattern then family
  else { family with elements := family.elements ++ [pattern] }

/-- The pattern of an element. -/
def elementPattern (family : RuleFamily) (name : String) : String :=
  under family.base (String.ofList (expand name.toList))

/-- The pattern of the base package and all packages below it. -/
def allPattern (family : RuleFamily) : String :=
  if family.base.isEmpty then "*" else trimEnd '.' family.base ++ ".*"

/-- Registers an element and gives its pattern. -/
def element (family : RuleFamily) (name : String) : String × RuleFamily :=
  let pattern := family.elementPattern name
  (pattern, family.register pattern)

/-- Registers the base package itself. -/
def basePackage (family : RuleFamily) : String × RuleFamily :=
  (family.base, family.register family.base)

/-- Registers the base package together with all packages below it. -/
def all (family : RuleFamily) : String × RuleFamily :=
  (family.allPattern, family.register family.allPattern)

/-- Relates a pattern to others. -/
def relate (family : RuleFamily) (pattern : String) (kind : RelationKind) (targets : List String) :
    RuleFamily :=
  { family with relations := family.relations ++ [⟨pattern, kind, targets⟩] }

/-- The relations of a family.  First come the registered patterns without targets, so that each
becomes a rule, and then the relations that were declared. -/
def toRelations (family : RuleFamily) : List Relation :=
  family.elements.map (fun pattern => ⟨pattern, ⟨.uses, .may⟩, []⟩) ++ family.relations

end RuleFamily

end PackageAudit
