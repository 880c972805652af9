/-
Dependency cycles.

A cycle is a set of packages, or of classes, each of which depends on every other directly or
through others.  A group of names may be declared as allowed; it covers the cycles all of
whose members it holds.
-/
import PackageAudit.Graph
import PackageAudit.Model.Basic
import PackageAudit.Usage

namespace PackageAudit

/-- Whether cycles of packages or of classes are looked for. -/
inductive CycleScope where
  | packages
  | classes
  deriving DecidableEq, Repr

/-- The name of a scope. -/
def CycleScope.name : CycleScope → String
  | .packages => "packages"
  | .classes => "classes"

/-- A dependency inside a cycle.  Between packages it comes with the classes that bring it about. -/
structure CycleEdge where
  source : String
  target : String
  vias : List String
  deriving DecidableEq, Repr

/-- A cycle: its members by name, and the dependencies between them by user and used member. -/
structure Cycle where
  members : List String
  edges : List CycleEdge
  deriving DecidableEq, Repr

/-- The cycles that no allowed group covers, and the groups that cover no cycle. -/
structure CycleReport where
  cycles : List Cycle
  unusedExceptions : List (List String)
  deriving DecidableEq, Repr

namespace Model

/-- The dependencies of a class that count: with `allowIntraPackage` those inside its own package
do not. -/
def countedUses (model : Model) (allowIntraPackage : Bool) (node : ClassNode) : List ClassId :=
  (node.uses.map Prod.fst).filter fun used =>
    !(allowIntraPackage && model.belongsTo used node.package)

/-- The graph of a scope.  Nodes are positions in the table of packages or of classes. -/
def graph (model : Model) (scope : CycleScope) (allowIntraPackage : Bool) : Graph :=
  match scope with
  | .packages => ⟨model.packages.map fun package => package.uses.map PackageId.position⟩
  | .classes => ⟨model.classes.map fun node =>
      (model.countedUses allowIntraPackage node).map ClassId.position⟩

/-- The name of a node of the graph of a scope. -/
def nodeName (model : Model) (scope : CycleScope) (node : Nat) : String :=
  match scope with
  | .packages => ((model.packages[node]?).map (·.name)).getD ""
  | .classes => ((model.classes[node]?).map (·.name)).getD ""

/-- The classes that bring about an edge of the graph of a scope. -/
def edgeVias (model : Model) (scope : CycleScope) (source target : Nat) : List String :=
  match scope with
  | .packages => model.viaNames (PackageId.ofPosition source) (PackageId.ofPosition target)
  | .classes => []

/-- The cycle of a strongly connected part of a graph. -/
def cycleOf (model : Model) (scope : CycleScope) (graph : Graph) (nodes : List Nat) : Cycle where
  members := nodes.map (model.nodeName scope)
  edges := nodes.flatMap fun source =>
    ((graph.next source).filter (nodes.contains ·)).map fun target =>
      ⟨model.nodeName scope source, model.nodeName scope target,
        model.edgeVias scope source target⟩

/-- All cycles of a scope, allowed or not. -/
def allCycles (model : Model) (scope : CycleScope) (allowIntraPackage : Bool) : List Cycle :=
  let graph := model.graph scope allowIntraPackage
  (graph.components.map fun nodes => model.cycleOf scope graph nodes.mergeSort).mergeSort
    fun a b => (compare a.members b.members).isLE

end Model

/-- Whether a group holds all members of a cycle. -/
def Cycle.isCoveredBy (cycle : Cycle) (group : List String) : Bool :=
  cycle.members.all (group.contains ·)

/-- Looks for cycles in a model.  Cycles that one of the groups covers are left out, and the groups
that cover none are reported, each as the ascending list of its names. -/
def Model.detectCycles (model : Model) (scope : CycleScope) (allowIntraPackage : Bool)
    (exceptions : List (List String)) : CycleReport :=
  let groups := exceptions.map Ascending.ofList
  let cycles := model.allCycles scope allowIntraPackage
  let declared : UsageCounter (List String) := groups.foldl UsageCounter.declare {}
  let usage := (cycles.flatMap fun cycle => groups.filter (cycle.isCoveredBy ·)).foldl
    UsageCounter.record declared
  { cycles := cycles.filter fun cycle => !groups.any (cycle.isCoveredBy ·)
    unusedExceptions := usage.unused }

end PackageAudit
