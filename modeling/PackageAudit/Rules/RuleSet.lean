/-
Rule sets.

Rules are declared piece by piece and then sealed: all patterns are read, the declarations
for one pattern become one rule, and a dependency that is declared both allowed and denied
is refused.  A sealed rule set can be evaluated on any number of models.
-/
import PackageAudit.Rules.Relation
import PackageAudit.Text.Digits

namespace PackageAudit

/-- What becomes of a dependency that no relation speaks of. -/
inductive ClosureMode where
  | allowByDefault
  | denyByDefault
  deriving DecidableEq, Repr

/-- The name of a closure mode. -/
def ClosureMode.name : ClosureMode → String
  | .allowByDefault => "allow-by-default"
  | .denyByDefault => "deny-by-default"

/-- A rule for the packages of a pattern.  An optional rule is not reported when it stands for no
package. -/
structure Rule where
  pattern : PackagePattern
  uses : Relations := {}
  usedBy : Relations := {}
  optional : Bool := false
  deriving DecidableEq, Repr

namespace Rule

/-- Whether the rule declares no relation. -/
def isEmpty (rule : Rule) : Bool := rule.uses.isEmpty && rule.usedBy.isEmpty

/-- The relations of a direction. -/
def relations (rule : Rule) : Direction → Relations
  | .uses => rule.uses
  | .usedBy => rule.usedBy

/-- Relates the packages of the rule to those of another pattern. -/
def relate (rule : Rule) (kind : RelationKind) (target : PackagePattern) : Rule :=
  match kind.direction with
  | .uses => { rule with uses := rule.uses.add kind.modality target }
  | .usedBy => { rule with usedBy := rule.usedBy.add kind.modality target }

end Rule

/-- Rules that have been checked, in the order of their declaration. -/
structure RuleSet where
  mode : ClosureMode
  rules : List Rule
  allowIntraPackageCycles : Bool := false
  deriving DecidableEq, Repr

/-- Where a pattern was declared. -/
inductive PatternSite where
  | rule (i : Nat)
  | relation (i : Nat)
  | target (i : Nat) (kind : RelationKind) (j : Nat)
  | external (i : Nat)
  deriving DecidableEq, Repr

/-- The wording of a place of declaration. -/
def PatternSite.text : PatternSite → String
  | .rule i => "rules[" ++ Text.decimal i ++ "]"
  | .relation i => "relations[" ++ Text.decimal i ++ "]"
  | .target i kind j =>
    "relations[" ++ Text.decimal i ++ "]." ++ kind.name ++ "[" ++ Text.decimal j ++ "]"
  | .external i => "externals[" ++ Text.decimal i ++ "]"

/-- Why rules cannot be sealed or evaluated. -/
inductive RuleSetError where
  | invalidPattern (site : PatternSite) (cause : PatternError)
  /-- A dependency between two patterns is declared both allowed and denied. -/
  | conflict (source target : PackagePattern) (allowed denied : RelationKind)
  /-- Relations of equal specificity allow and deny one dependency. -/
  | ambiguous (rule : PackagePattern) (source target : String)
  deriving DecidableEq, Repr

namespace RuleSetError

/-- The message that reports an error. -/
def message : RuleSetError → String
  | .invalidPattern site cause => site.text ++ ": " ++ cause.message
  | .conflict source target allowed denied =>
    "`" ++ source.text ++ "` -> `" ++ target.text ++ "` is declared both " ++ allowed.name
      ++ " and " ++ denied.name
  | .ambiguous rule source target =>
    "rule `" ++ rule.text ++ "` is ambiguous for dependency " ++ source ++ " -> " ++ target

/-- The code of an error in diagnostics. -/
def code : RuleSetError → String
  | .invalidPattern _ _ => "code_assert::rules::pattern"
  | .conflict _ _ _ _ => "code_assert::rules::conflict"
  | .ambiguous _ _ _ => "code_assert::rules::ambiguous"

/-- Advice on an error. -/
def help? : RuleSetError → Option String
  | .invalidPattern _ _ =>
    some "use a dotted package name, optionally ending in `*` (`com.acme.*`)"
  | .conflict _ _ _ _ => none
  | .ambiguous _ _ _ => some "make one of the conflicting patterns more specific"

end RuleSetError

/-! ### Declaring and sealing -/

/-- Rules as they are declared.  Anyone may use an external package, and it is not reported when it
does not occur. -/
structure RuleDeclarations where
  mode : ClosureMode
  rules : List String := []
  relations : List Relation := []
  externals : List String := []
  allowIntraPackageCycles : Bool := false
  deriving DecidableEq, Repr

/-- A dependency between patterns that a relation has spoken of: the side that uses, the side that
is used, and the kind of the relation. -/
structure DeclaredEdge where
  source : PackagePattern
  target : PackagePattern
  kind : RelationKind
  deriving DecidableEq, Repr

/-- Rules that are being put together, with the dependencies that were spoken of so far. -/
structure Sealing where
  rules : List Rule := []
  edges : List DeclaredEdge := []
  deriving DecidableEq, Repr

namespace Sealing

/-- Changes the rule of a pattern, which is made first if there is none. -/
def changeRule (rules : List Rule) (pattern : PackagePattern) (change : Rule → Rule) : List Rule :=
  if rules.any (·.pattern == pattern) then
    rules.map fun rule => if rule.pattern == pattern then change rule else rule
  else rules ++ [change { pattern }]

/-- Reads a pattern that was declared at a site. -/
def parseAt (site : PatternSite) (text : String) : Except RuleSetError PackagePattern :=
  match PackagePattern.parse text with
  | .ok pattern => .ok pattern
  | .error cause => .error (.invalidPattern site cause)

/-- Takes up the declaration of a rule. -/
def addRule (state : Sealing) (declared : String × Nat) : Except RuleSetError Sealing := do
  let pattern ← parseAt (.rule declared.2) declared.1
  return { state with rules := changeRule state.rules pattern id }

/-- The dependency that a relation of a rule to a target speaks of. -/
def edgeOf (pattern : PackagePattern) (kind : RelationKind) (target : PackagePattern) :
    DeclaredEdge :=
  if kind.isReverse then ⟨target, pattern, kind⟩ else ⟨pattern, target, kind⟩

/-- An earlier declaration that contradicts a new one. -/
def contradicting? (edges : List DeclaredEdge) (edge : DeclaredEdge) : Option DeclaredEdge :=
  edges.find? fun earlier =>
    earlier.source == edge.source && earlier.target == edge.target
      && earlier.kind.isDenial != edge.kind.isDenial

/-- Takes up a target of a relation. -/
def addTarget (i : Nat) (pattern : PackagePattern) (kind : RelationKind) (state : Sealing)
    (declared : String × Nat) : Except RuleSetError Sealing := do
  let target ← parseAt (.target i kind declared.2) declared.1
  let edge := edgeOf pattern kind target
  match contradicting? state.edges edge with
  | some earlier =>
    if kind.isDenial then throw (.conflict edge.source edge.target earlier.kind kind)
    else throw (.conflict edge.source edge.target kind earlier.kind)
  | none =>
    return {
      rules := changeRule state.rules pattern (·.relate kind target)
      edges := state.edges ++ [edge] }

/-- Takes up a relation. -/
def addRelation (state : Sealing) (declared : Relation × Nat) : Except RuleSetError Sealing := do
  let (relation, i) := declared
  let pattern ← parseAt (.relation i) relation.pattern
  let state := { state with rules := changeRule state.rules pattern id }
  relation.targets.zipIdx.foldlM (addTarget i pattern relation.kind) state

/-- Takes up an external package. -/
def addExternal (state : Sealing) (declared : String × Nat) : Except RuleSetError Sealing := do
  let pattern ← parseAt (.external declared.2) declared.1
  return { state with
    rules := changeRule state.rules pattern fun rule =>
      { rule.relate ⟨.usedBy, .may⟩ .every with optional := true } }

end Sealing

/-- Checks declared rules: first the rules, then the relations with their targets, then the
externals, in the order of their declaration.  The first fault counts. -/
def RuleDeclarations.seal (declarations : RuleDeclarations) : Except RuleSetError RuleSet := do
  let state ← declarations.rules.zipIdx.foldlM Sealing.addRule {}
  let state ← declarations.relations.zipIdx.foldlM Sealing.addRelation state
  let state ← declarations.externals.zipIdx.foldlM Sealing.addExternal state
  return ⟨declarations.mode, state.rules, declarations.allowIntraPackageCycles⟩

end PackageAudit
