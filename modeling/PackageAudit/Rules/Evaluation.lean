/-
What rules say of a model.

Each dependency between packages is judged by the rules that stand for the using package,
its owners.  An owner allows or denies the dependency by its own relations and by the
relations that the rules of the used package declare for their users; if it does both, the
more specific pattern decides, and if none is more specific the rules are ambiguous.  Of
several owners an allowance by the more specific one overrides a denial.  A dependency
inside the territory of a rule with a name is never judged.

The judgements on all dependencies are gathered in two tables, the strongest allowance and the
weakest denial of each, and are weighed against each other when all are there.
-/
import PackageAudit.Model.Basic
import PackageAudit.Rules.RuleSet
import PackageAudit.Usage

namespace PackageAudit

/-- How a dependency violates the rules. -/
inductive ViolationKind where
  /-- It is there and is denied, or is not allowed. -/
  | disallowed
  /-- It is required and is not there. -/
  | missingMandatory
  deriving DecidableEq, Repr

/-- The name of a kind of violation. -/
def ViolationKind.name : ViolationKind → String
  | .disallowed => "disallowed"
  | .missingMandatory => "missing-mandatory"

/-- The place of a kind of violation in the order of kinds. -/
def ViolationKind.rank : ViolationKind → Nat
  | .disallowed => 0
  | .missingMandatory => 1

instance : Ord ViolationKind := ⟨compareOn ViolationKind.rank⟩

/-- A dependency that violates the rules, with the classes that bring it about. -/
structure RuleViolation where
  source : String
  target : String
  kind : ViolationKind
  vias : List String
  deriving DecidableEq, Repr

/-- A declaration whose pattern stands for no package: the pattern of a rule, or of one of its
relations. -/
structure UnusedRule where
  rule : String
  relation : Option RelationKind
  pattern : String
  deriving DecidableEq, Repr

instance : Ord UnusedRule :=
  ⟨compareLex (compareOn UnusedRule.rule)
    (compareLex (compareOn UnusedRule.relation) (compareOn UnusedRule.pattern))⟩

/-- What rules say of a model: violations in order, declarations that were of no use, and packages
that no rule stands for. -/
structure RuleReport where
  violations : List RuleViolation
  unused : List UnusedRule
  undefined : List String
  deriving DecidableEq, Repr

/-- Whether nothing violates the rules. -/
def RuleReport.isClean (report : RuleReport) : Bool := report.violations.isEmpty

/-- The order of violations: by user, by used package, then by kind. -/
instance : Ord RuleViolation :=
  ⟨compareLex (compareOn RuleViolation.source) (compareLex (compareOn RuleViolation.target)
    (compareLex (compareOn RuleViolation.kind) (compareOn RuleViolation.vias)))⟩

/-- A dependency of a model: the package that uses and the package that is used. -/
structure PackageEdge where
  source : PackageId
  target : PackageId
  deriving DecidableEq, Repr

/-- The order of dependencies: by user, then by used package. -/
instance : Ord PackageEdge :=
  ⟨compareLex (compareOn PackageEdge.source) (compareOn PackageEdge.target)⟩

/-- One rule's view of a dependency: the rule, if there is one, and how specifically the dependency
is allowed and denied. -/
structure Judge where
  pattern : Option PackagePattern
  allowed : Nat
  denied : Nat
  deriving DecidableEq, Repr

namespace Judge

/-- The specificity of the rule that judges. -/
def specificity (judge : Judge) : Nat :=
  match judge.pattern with
  | none => 0
  | some pattern => pattern.specificity

/-- Whether the judge can not decide. -/
def isAmbiguous (judge : Judge) : Bool := judge.allowed ≠ 0 && judge.allowed = judge.denied

/-- Whether the judge allows the dependency. -/
def allows (mode : ClosureMode) (judge : Judge) : Bool :=
  judge.allowed > judge.denied || (mode = .allowByDefault && judge.denied = 0)

/-- Whether the judge denies the dependency. -/
def denies (mode : ClosureMode) (judge : Judge) : Bool :=
  judge.denied > judge.allowed || (mode = .denyByDefault && judge.allowed = 0)

/-- The weight of a denial, which is 0 if no relation denies. -/
def denialWeight (judge : Judge) : Nat := if judge.denied = 0 then 0 else judge.specificity

end Judge

/-- The judgements on the dependencies of a model, as ascending tables: for each allowed one the
specificity of the most specific rule that allows it, and for each denied one the weight of the
weakest denial. -/
structure Judgements where
  allowed : List (PackageEdge × Nat) := []
  denied : List (PackageEdge × Nat) := []
  deriving DecidableEq, Repr

namespace Judgements

/-- Enters an allowance with the specificity of its rule. -/
def allow (judgements : Judgements) (edge : PackageEdge) (specificity : Nat) : Judgements :=
  { judgements with
    allowed := Ascending.alter edge (fun known => Nat.max (known.getD specificity) specificity)
      judgements.allowed }

/-- Enters a denial with its weight. -/
def deny (judgements : Judgements) (edge : PackageEdge) (weight : Nat) : Judgements :=
  { judgements with
    denied := Ascending.alter edge (fun known => Nat.min (known.getD weight) weight)
      judgements.denied }

/-- Enters what a judge says of a dependency. -/
def enter (mode : ClosureMode) (edge : PackageEdge) (judgements : Judgements) (judge : Judge) :
    Judgements :=
  let judgements :=
    if judge.allows mode then judgements.allow edge judge.specificity else judgements
  if judge.denies mode then judgements.deny edge judge.denialWeight else judgements

/-- The denied dependencies.  An allowance is stronger than a denial of less weight. -/
def disallowed (judgements : Judgements) : List PackageEdge :=
  (judgements.denied.filter fun (edge, weight) =>
    (Ascending.find? edge judgements.allowed).all (· ≤ weight)).map Prod.fst

end Judgements

namespace RuleSet

/-- The rules that stand for a package. -/
def owners (rules : RuleSet) (package : String) : List Rule :=
  rules.rules.filter (·.pattern.covers package)

/-- Whether a package is inside the territory of one of some rules, the universal one apart. -/
def isSelfReference (owners : List Rule) (target : String) : Bool :=
  owners.any fun rule => !rule.pattern.isUniversal && rule.pattern.covers target

/-- How specifically the rules of the used package allow a user. -/
def reverseAllowed (rules : RuleSet) (source target : String) : Nat :=
  ((rules.owners target).map fun rule => rule.usedBy.allowed source).foldl Nat.max 0

/-- How specifically the rules of the used package deny a user. -/
def reverseDenied (rules : RuleSet) (source target : String) : Nat :=
  ((rules.owners target).map fun rule => rule.usedBy.denied source).foldl Nat.max 0

/-- Those who judge a dependency: the owners of the using package, or the closure mode alone if
there is none. -/
def judges (rules : RuleSet) (owners : List Rule) (source target : String) : List Judge :=
  let allowed := rules.reverseAllowed source target
  let denied := rules.reverseDenied source target
  match owners with
  | [] => [⟨none, allowed, denied⟩]
  | owners => owners.map fun rule =>
    ⟨some rule.pattern, Nat.max (rule.uses.allowed target) allowed,
      Nat.max (rule.uses.denied target) denied⟩

/-- Enters what a judge says of a dependency.  It is an error if the judge can not decide. -/
def hear (rules : RuleSet) (model : Model) (edge : PackageEdge) (judgements : Judgements)
    (judge : Judge) : Except RuleSetError Judgements :=
  if judge.isAmbiguous then
    .error (.ambiguous (judge.pattern.getD .every) (model.packageName edge.source)
      (model.packageName edge.target))
  else .ok (judgements.enter rules.mode edge judge)

/-- Judges a dependency, given the owners of the using package. -/
def judgeEdge (rules : RuleSet) (model : Model) (owners : List Rule) (source : PackageId)
    (judgements : Judgements) (target : PackageId) : Except RuleSetError Judgements :=
  if isSelfReference owners (model.packageName target) then .ok judgements
  else (rules.judges owners (model.packageName source) (model.packageName target)).foldlM
    (rules.hear model ⟨source, target⟩) judgements

/-- Judges the dependencies of a package. -/
def judgePackage (rules : RuleSet) (model : Model) (judgements : Judgements)
    (entry : PackageId × Package) : Except RuleSetError Judgements :=
  (model.uses entry.1).foldlM (rules.judgeEdge model (rules.owners entry.2.name) entry.1) judgements

/-- Judges all dependencies of a model, package by package. -/
def judgements (rules : RuleSet) (model : Model) : Except RuleSetError Judgements :=
  model.packageList.foldlM (rules.judgePackage model) {}

/-- The packages that a pattern stands for. -/
def matching (model : Model) (pattern : PackagePattern) : List PackageId :=
  (model.packageList.filter fun (_, package) => pattern.covers package.name).map Prod.fst

/-- The dependencies that relations require. -/
def required (rules : RuleSet) (model : Model) : List PackageEdge :=
  rules.rules.flatMap fun rule =>
    let own := matching model rule.pattern
    (rule.uses.must.flatMap fun target =>
      own.flatMap fun source => (matching model target).map fun target => ⟨source, target⟩)
    ++ (rule.usedBy.must.flatMap fun source =>
      (matching model source).flatMap fun source => own.map fun target => ⟨source, target⟩)

/-- The required dependencies that are not there, as an ascending list. -/
def missing (rules : RuleSet) (model : Model) : List PackageEdge :=
  Ascending.ofList <| (rules.required model).filter fun edge =>
    edge.source ≠ edge.target && !(model.uses edge.source).contains edge.target

/-- The violation by a dependency that is there. -/
def disallowedViolation (model : Model) (edge : PackageEdge) : RuleViolation :=
  ⟨model.packageName edge.source, model.packageName edge.target, .disallowed,
    model.viaNames edge.source edge.target⟩

/-- The violation by a dependency that is not there. -/
def missingViolation (model : Model) (edge : PackageEdge) : RuleViolation :=
  ⟨model.packageName edge.source, model.packageName edge.target, .missingMandatory, []⟩

/-- The violations by disallowed and by missing dependencies, in order. -/
def violations (model : Model) (disallowed missing : List PackageEdge) : List RuleViolation :=
  (disallowed.map (disallowedViolation model) ++ missing.map (missingViolation model)).mergeSort
    fun a b => (compare a b).isLE

/-- The patterns that a rule declares, with the relation that they stand in. -/
def declaredPatterns (rule : Rule) : List (Option RelationKind × PackagePattern) :=
  (none, rule.pattern) :: RelationKind.all.flatMap fun kind =>
    ((rule.relations kind.direction).get kind.modality).map fun pattern => (some kind, pattern)

/-- The declarations of rules, except optional ones, that stand for no package. -/
def unused (rules : RuleSet) (model : Model) : List UnusedRule :=
  let declarations := (rules.rules.filter fun rule => !rule.optional).flatMap fun rule =>
    (declaredPatterns rule).map fun (relation, pattern) =>
      (UnusedRule.mk rule.pattern.text relation pattern.text, pattern)
  let counter : UsageCounter UnusedRule := declarations.foldl
    (fun counter (key, pattern) => counter.recordMany key (matching model pattern).length) {}
  counter.unused

/-- The packages that no rule stands for. -/
def undefined (rules : RuleSet) (model : Model) : List String :=
  (model.packages.toList.filter fun package => (rules.owners package.name).isEmpty).map (·.name)

/-- Evaluates rules on a model. -/
def evaluate (rules : RuleSet) (model : Model) : Except RuleSetError RuleReport := do
  let judgements ← rules.judgements model
  return {
    violations := violations model judgements.disallowed (rules.missing model)
    unused := rules.unused model
    undefined := rules.undefined model }

end RuleSet

end PackageAudit
