/-
Configuration documents: the settings as they are written, before they are checked.

`load` checks a document from top to bottom (model, rules, cycles, ignored findings), and the
first fault counts.  In the rules every pattern is looked at before the rules are put
together, so that a fault of a pattern is reported with its place in the document.
-/
import PackageAudit.Configuration.Basic

namespace PackageAudit

/-- The part of a document that says what a model is built from. -/
structure ModelSection where
  inputs : List String := []
  ignorePackages : List String := []
  mergePackages : List String := []
  languages : Option (List String) := none
  parallelism : Option Nat := none
  deriving DecidableEq, Repr

/-- The rules for the packages of a pattern. -/
structure PackageSection where
  pattern : String
  mayUse : List String := []
  mustUse : List String := []
  mustNotUse : List String := []
  mayBeUsedBy : List String := []
  mustBeUsedBy : List String := []
  mustNotBeUsedBy : List String := []
  deriving DecidableEq, Repr

/-- The part of a document that declares rules. -/
structure RulesSection where
  mode : Option String := none
  externals : List String := []
  allowIntraPackageCycles : Bool := false
  packages : List PackageSection := []
  deriving DecidableEq, Repr

/-- The part of a document that says which cycles are looked for. -/
structure CyclesSection where
  enabled : Option Bool := none
  scope : Option String := none
  allow : List (List String) := []
  deriving DecidableEq, Repr

/-- Findings that are accepted, and why. -/
structure IgnoreSection where
  because : String
  patterns : List String
  deriving DecidableEq, Repr

/-- A configuration as it is written. -/
structure ConfigurationDocument where
  model : ModelSection := {}
  rules : Option RulesSection := none
  cycles : CyclesSection := {}
  ignores : List IgnoreSection := []
  deriving DecidableEq, Repr

/-! ### Faults -/

/-- A setting that takes one of a few values. -/
inductive Choice where
  | language (i : Nat)
  | mode
  | scope
  deriving DecidableEq, Repr

namespace Choice

/-- The place of a setting in a document. -/
def text : Choice → String
  | .language i => "model.languages[" ++ Text.decimal i ++ "]"
  | .mode => "rules.mode"
  | .scope => "cycles.scope"

/-- The values that a setting takes. -/
def expected : Choice → String
  | .language _ => "java, kotlin"
  | .mode => "deny-by-default, allow-by-default"
  | .scope => "packages, classes"

end Choice

/-- A place in a document where the pattern of a package stands. -/
inductive RulesSite where
  | external (i : Nat)
  | package (i : Nat)
  | target (i : Nat) (kind : RelationKind) (j : Nat)
  deriving DecidableEq, Repr

/-- The wording of a place in a document. -/
def RulesSite.text : RulesSite → String
  | .external i => "rules.externals[" ++ Text.decimal i ++ "]"
  | .package i => "rules.package[" ++ Text.decimal i ++ "].pattern"
  | .target i kind j =>
    "rules.package[" ++ Text.decimal i ++ "]." ++ kind.name ++ "[" ++ Text.decimal j ++ "]"

/-- Why a document makes no configuration. -/
inductive LoadError where
  | pattern (site : RulesSite) (cause : PatternError)
  /-- Pattern `j` of entry `i` of the ignored findings is malformed. -/
  | ignore (i j : Nat) (cause : IgnoreError)
  | unknownValue (choice : Choice) (value : String)
  /-- The patterns are well-formed, but the rules contradict each other. -/
  | rules (cause : RuleSetError)
  deriving DecidableEq, Repr

/-- The message that reports a fault. -/
def LoadError.message : LoadError → String
  | .pattern site cause => site.text ++ ": " ++ cause.message
  | .ignore i j cause =>
    "ignore[" ++ Text.decimal i ++ "].patterns[" ++ Text.decimal j ++ "]: " ++ cause.message
  | .unknownValue choice value =>
    choice.text ++ ": unknown value `" ++ value ++ "`, expected one of: " ++ choice.expected
  | .rules cause => "rules: " ++ cause.message

/-! ### Checking -/

namespace ModelSection

/-- Reads the name of a language. -/
def loadLanguage (named : String × Nat) : Except LoadError Language :=
  match Language.parse named.1 with
  | .ok language => .ok language
  | .error _ => .error (.unknownValue (.language named.2) named.1)

/-- Checks what a model is built from. -/
def load (document : ModelSection) : Except LoadError ModelSettings := do
  let languages ← match document.languages with
    | none => pure Language.all
    | some names => names.zipIdx.mapM loadLanguage
  return {
    inputs := document.inputs
    ignorePackages := document.ignorePackages
    mergePackages := document.mergePackages
    languages
    parallelism := document.parallelism }

end ModelSection

namespace PackageSection

/-- The relations of a package, in the order in which they are looked at. -/
def relations (document : PackageSection) : List (RelationKind × List String) :=
  [(⟨.uses, .may⟩, document.mayUse), (⟨.uses, .must⟩, document.mustUse),
    (⟨.uses, .mustNot⟩, document.mustNotUse), (⟨.usedBy, .may⟩, document.mayBeUsedBy),
    (⟨.usedBy, .must⟩, document.mustBeUsedBy), (⟨.usedBy, .mustNot⟩, document.mustNotBeUsedBy)]

/-- The patterns of the package at position `i`, with their places. -/
def patterns (document : PackageSection) (i : Nat) : List (RulesSite × String) :=
  (.package i, document.pattern) :: document.relations.flatMap fun (kind, targets) =>
    targets.zipIdx.map fun (target, j) => (.target i kind j, target)

/-- The relations that have a target. -/
def declarations (document : PackageSection) : List Relation :=
  (document.relations.filter fun (_, targets) => !targets.isEmpty).map fun (kind, targets) =>
    ⟨document.pattern, kind, targets⟩

end PackageSection

namespace RulesSection

/-- All patterns of the rules with their places, from top to bottom. -/
def patterns (document : RulesSection) : List (RulesSite × String) :=
  document.externals.zipIdx.map (fun (pattern, i) => (.external i, pattern))
    ++ document.packages.zipIdx.flatMap fun (package, i) => package.patterns i

/-- Reads the closure mode; without one, what is not allowed is denied. -/
def loadMode (document : RulesSection) : Except LoadError ClosureMode :=
  match document.mode with
  | none => .ok .denyByDefault
  | some name =>
    if name = ClosureMode.denyByDefault.name then .ok .denyByDefault
    else if name = ClosureMode.allowByDefault.name then .ok .allowByDefault
    else .error (.unknownValue .mode name)

/-- Checks that a pattern is well-formed. -/
def checkPattern (placed : RulesSite × String) : Except LoadError Unit :=
  match PackagePattern.parse placed.2 with
  | .ok _ => .ok ()
  | .error cause => .error (.pattern placed.1 cause)

/-- The rules that a document declares. -/
def declarations (document : RulesSection) (mode : ClosureMode) : RuleDeclarations where
  mode
  rules := document.packages.map (·.pattern)
  relations := document.packages.flatMap (·.declarations)
  externals := document.externals
  allowIntraPackageCycles := document.allowIntraPackageCycles

/-- Checks rules. -/
def load (document : RulesSection) : Except LoadError RuleSet := do
  let mode ← document.loadMode
  document.patterns.forM checkPattern
  match (document.declarations mode).seal with
  | .ok rules => return rules
  | .error cause => throw (.rules cause)

end RulesSection

/-- Checks which cycles are looked for. -/
def CyclesSection.load (document : CyclesSection) : Except LoadError CycleSettings := do
  let scope ← match document.scope with
    | none => pure CycleScope.packages
    | some name =>
      if name = CycleScope.packages.name then pure .packages
      else if name = CycleScope.classes.name then pure .classes
      else throw (.unknownValue .scope name)
  return { enabled := document.enabled.getD true, scope, allow := document.allow }

namespace IgnoreSection

/-- Reads pattern `j` of entry `i`. -/
def loadPattern (i : Nat) (placed : String × Nat) : Except LoadError IgnorePattern :=
  match IgnorePattern.parse placed.1 with
  | .ok pattern => .ok pattern
  | .error cause => .error (.ignore i placed.2 cause)

/-- Checks the entry at a position. -/
def load (placed : IgnoreSection × Nat) : Except LoadError IgnoreEntry := do
  let patterns ← placed.1.patterns.zipIdx.mapM (loadPattern placed.2)
  return ⟨placed.1.because, patterns⟩

end IgnoreSection

/-- Checks a document. -/
def ConfigurationDocument.load (document : ConfigurationDocument) :
    Except LoadError Configuration := do
  let model ← document.model.load
  let rules ← document.rules.mapM RulesSection.load
  let cycles ← document.cycles.load
  let ignores ← document.ignores.zipIdx.mapM IgnoreSection.load
  return { model, rules, cycles, ignores }

end PackageAudit
