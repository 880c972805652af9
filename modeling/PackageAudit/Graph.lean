/-
Directed graphs, and their strongly connected parts.

Nodes are the numbers below the size of the graph.  Two nodes belong together if each can be
reached from the other; the parts of more than one node are the cycles of the graph.

One depth-first search finds all parts.  It numbers the nodes in the order in which it meets
them and keeps those whose part is not complete on a stack.  The low number of a node on the
stack is the number of a node on the stack that can be reached from it; a node for which no
smaller one was found when its successors have been looked at is the first of its part, and
the part is what stands above it on the stack.

The search goes down and comes back by a list of places to go on from, each a node and the
position of the successor that is looked at next, so that it needs no recursion.
-/
namespace PackageAudit

/-- A directed graph: the nodes that follow each node. -/
structure Graph where
  successors : Array (List Nat)
  deriving DecidableEq, Repr

namespace Graph

/-- The number of nodes. -/
def size (graph : Graph) : Nat := graph.successors.size

/-- The nodes that follow a node. -/
def next (graph : Graph) (node : Nat) : List Nat := graph.successors.getD node []

end Graph

/-- Where a depth-first search stands. -/
structure Search where
  /-- The numbers of the nodes that have been met. -/
  numbers : Array (Option Nat)
  /-- The low numbers of the nodes that have been met. -/
  lows : Array Nat
  /-- Which nodes are on the stack. -/
  stacked : Array Bool
  /-- The nodes whose part is not complete, the last one first. -/
  stack : List Nat := []
  /-- The complete parts of more than one node. -/
  parts : List (List Nat) := []
  /-- How many nodes have been met. -/
  count : Nat := 0
  /-- The places to go on from, the next one first. -/
  work : List (Nat × Nat) := []
  deriving DecidableEq, Repr

namespace Search

/-- A search that has not met any node. -/
def start (size : Nat) : Search where
  numbers := Array.replicate size none
  lows := Array.replicate size 0
  stacked := Array.replicate size false

/-- The number of a node, if it has been met. -/
def number? (search : Search) (node : Nat) : Option Nat := search.numbers.getD node none

/-- The low number of a node. -/
def low (search : Search) (node : Nat) : Nat := search.lows.getD node 0

/-- Whether a node is on the stack. -/
def isStacked (search : Search) (node : Nat) : Bool := search.stacked.getD node false

/-- Meets a node for the first time. -/
def meet (search : Search) (node : Nat) : Search :=
  { search with
    numbers := search.numbers.setIfInBounds node (some search.count)
    lows := search.lows.setIfInBounds node search.count
    stacked := search.stacked.setIfInBounds node true
    stack := node :: search.stack
    count := search.count + 1 }

/-- Lowers the low number of a node to a bound, unless it is smaller already. -/
def lower (search : Search) (node bound : Nat) : Search :=
  { search with lows := search.lows.setIfInBounds node (Nat.min (search.low node) bound) }

/-- Lowers the low number of a node to a bound that comes from one of its successors.  Only
successors on the stack count. -/
def lowerBy (search : Search) (node child bound : Nat) : Search :=
  if search.isStacked child then search.lower node bound else search

/-- Comes to a place: either the node is met, or the search is back from the successor before the
place, and the low number of that successor is taken over. -/
def enter (graph : Graph) (search : Search) (node : Nat) : (edge : Nat) → Search
  | 0 => search.meet node
  | edge + 1 =>
    let child := (graph.next node).getD edge node
    search.lowerBy node child (search.low child)

/-- Looks at successors of a node, the first of which stands at position `edge`, until one is found
that has not been met.  It is given back with the position behind it. -/
def scan (node : Nat) : (edge : Nat) → List Nat → Search → Search × Option (Nat × Nat)
  | _, [], search => (search, none)
  | edge, child :: rest, search =>
    match search.number? child with
    | none => (search, some (child, edge + 1))
    | some number => scan node (edge + 1) rest (search.lowerBy node child number)

/-- Splits a stack behind a node. -/
def splitBehind (node : Nat) : List Nat → List Nat × List Nat
  | [] => ([], [])
  | top :: rest =>
    if top = node then ([top], rest)
    else
      let (above, below) := splitBehind node rest
      (top :: above, below)

/-- Takes the part of a node, its first one, from the stack. -/
def complete (search : Search) (node : Nat) : Search :=
  let (part, stack) := splitBehind node search.stack
  { search with
    stacked := part.foldl (fun stacked member => stacked.setIfInBounds member false) search.stacked
    stack
    parts := if part.length > 1 then search.parts ++ [part] else search.parts }

/-- Goes on at a node that the search has come to: down to the next successor that has not been met,
or back. -/
def leave (graph : Graph) (search : Search) (node edge : Nat) : Search :=
  match scan node edge ((graph.next node).drop edge) search with
  | (search, some (child, edge)) =>
    { search with work := (child, 0) :: (node, edge) :: search.work }
  | (search, none) =>
    if search.number? node = some (search.low node) then search.complete node else search

/-- Goes on from the next place. -/
def step (graph : Graph) (search : Search) : Search :=
  match search.work with
  | [] => search
  | (node, edge) :: work => leave graph (enter graph { search with work } node edge) node edge

/-- Goes on until there is no place left to go on from.  `fuel` bounds the number of places. -/
def run (graph : Graph) : (fuel : Nat) → Search → Search
  | 0, search => search
  | fuel + 1, search =>
    match search.work with
    | [] => search
    | _ => run graph fuel (step graph search)

/-- Searches from a node, unless it has been met.  Each node that is met is a place once, and its
predecessor in the search once more. -/
def explore (graph : Graph) (search : Search) (root : Nat) : Search :=
  match search.number? root with
  | some _ => search
  | none => run graph (2 * graph.size) { search with work := [(root, 0)] }

end Search

/-- The strongly connected parts of more than one node. -/
def Graph.components (graph : Graph) : List (List Nat) :=
  ((List.range graph.size).foldl (Search.explore graph) (Search.start graph.size)).parts

end PackageAudit
