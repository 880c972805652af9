/-
The depth-first search stays within its tables, comes to its end and lists all parts.

The moves of the search read a table with a default and drop a write that misses it, and the
search from a root is cut off after a number of places.  Here the same search is written a
second time, without either: it fails at the first read or write outside a table, and it goes on
from place to place without a bound, so that a search that does not end gives nothing.  In a
graph whose edges end at nodes both searches give the same (`Graph.components?_eq`).

What is needed for the reads is little and is kept apart from the invariant of the search: the
tables are as large as the graph, the nodes on the stack are nodes of the graph, and the places
to go on from are positions among the successors of a node (`Fits`).  That the search ends comes
from the measure that each step lowers.
-/
import PackageAudit.Proofs.Graph.Components

namespace PackageAudit

/-- Writes to a place of a table, which must exist. -/
def write? {α : Type} (table : Array α) (i : Nat) (x : α) : Option (Array α) :=
  if i < table.size then some (table.setIfInBounds i x) else none

theorem write?_eq {α : Type} {table : Array α} {i : Nat} (h : i < table.size) (x : α) :
    write? table i x = some (table.setIfInBounds i x) := if_pos h

theorem getElem?_eq_some_getD {α : Type} {table : Array α} {i : Nat} (h : i < table.size) (d : α) :
    table[i]? = some (table.getD i d) := by
  rw [Array.getD_eq_getD_getElem?, Array.getElem?_eq_getElem h, Option.getD_some]

namespace Search

/-! ### The search with checked tables and without a bound -/

/-- Gives a node its number and puts it on the stack. -/
def meet? (search : Search) (node : Nat) : Option Search := do
  let numbers ← write? search.numbers node (some search.count)
  let lows ← write? search.lows node search.count
  let stacked ← write? search.stacked node true
  return { search with
    numbers, lows, stacked, stack := node :: search.stack, count := search.count + 1 }

/-- The bound is read only if the successor is on the stack. -/
def lowerBy? (search : Search) (node child : Nat) (bound : Option Nat) : Option Search := do
  let isStacked ← search.stacked[child]?
  if isStacked then
    let low ← search.lows[node]?
    let bound ← bound
    let lows ← write? search.lows node (Nat.min low bound)
    return { search with lows }
  else
    return search

/-- Comes to a place: a node is met before its first edge, and otherwise the bound of the successor
is taken over that the search comes back from. -/
def enter? (graph : Graph) (search : Search) (node : Nat) : (edge : Nat) → Option Search
  | 0 => search.meet? node
  | edge + 1 => do
    let children ← graph.successors[node]?
    let child ← children[edge]?
    search.lowerBy? node child search.lows[child]?

/-- Goes through the successors from an edge on, up to the first that has no number yet. -/
def scan? (node : Nat) :
    (edge : Nat) → List Nat → Search → Option (Search × Option (Nat × Nat))
  | _, [], search => some (search, none)
  | edge, child :: rest, search => do
    match ← search.numbers[child]? with
    | none => return (search, some (child, edge + 1))
    | some number =>
      let search ← search.lowerBy? node child (some number)
      scan? node (edge + 1) rest search

/-- Takes the part of a node from the stack. -/
def complete? (search : Search) (node : Nat) : Option Search := do
  let (part, stack) := splitBehind node search.stack
  let stacked ← part.foldlM (fun stacked member => write? stacked member false) search.stacked
  return { search with
    stacked, stack, parts := if part.length > 1 then search.parts ++ [part] else search.parts }

/-- Goes on from a place: down to a new successor, or up when there is none, which may complete a
part. -/
def leave? (graph : Graph) (search : Search) (node edge : Nat) : Option Search := do
  let children ← graph.successors[node]?
  match ← scan? node edge (children.drop edge) search with
  | (search, some (child, edge)) =>
    return { search with work := (child, 0) :: (node, edge) :: search.work }
  | (search, none) =>
    let number ← search.numbers[node]?
    let low ← search.lows[node]?
    if number = some low then search.complete? node else return search

/-- One step: comes to the next place and goes on from there. -/
def step? (graph : Graph) (search : Search) : Option Search :=
  match search.work with
  | [] => some search
  | (node, edge) :: work => do
    let search ← enter? graph { search with work } node edge
    leave? graph search node edge

/-- Goes on until there is no place left to go on from, however long that takes. -/
def run? (graph : Graph) (search : Search) : Option Search :=
  match search.work with
  | [] => some search
  | _ => do
    let search ← step? graph search
    search |>.run? graph
partial_fixpoint

/-- Searches from a root, unless it has been met before. -/
def explore? (graph : Graph) (search : Search) (root : Nat) : Option Search := do
  match ← search.numbers[root]? with
  | some _ => return search
  | none => run? graph { search with work := [(root, 0)] }

end Search

/-- The strongly connected parts of more than one node, if the search for them ends and no read or
write misses its table. -/
def Graph.components? (graph : Graph) : Option (List (List Nat)) := do
  let search ← (List.range graph.size).foldlM (Search.explore? graph) (Search.start graph.size)
  return search.parts

theorem Graph.successors_getElem? {graph : Graph} {node : Nat} (h : node < graph.size) :
    graph.successors[node]? = some (graph.next node) := getElem?_eq_some_getD h []

namespace Search

variable {graph : Graph} {s : Search} {node child edge n : Nat}

/-! ### What the tables hold -/

/-- Whether a place is a node with a position among its successors, or the one behind them. -/
def IsPlace (graph : Graph) (place : Nat × Nat) : Prop :=
  place.1 < graph.size ∧ place.2 ≤ (graph.next place.1).length

/-- All that the search reads its tables at is in range. -/
structure Fits (graph : Graph) (s : Search) : Prop where
  sized : Sized graph.size s
  stack_lt : ∀ v ∈ s.stack, v < graph.size
  isPlace : ∀ place ∈ s.work, IsPlace graph place

theorem Sized.number?_eq (hs : Sized n s) (h : node < n) :
    s.numbers[node]? = some (s.number? node) :=
  getElem?_eq_some_getD (hs.numbers.symm ▸ h) none

theorem Sized.low_eq (hs : Sized n s) (h : node < n) : s.lows[node]? = some (s.low node) :=
  getElem?_eq_some_getD (hs.lows.symm ▸ h) 0

theorem Sized.isStacked_eq (hs : Sized n s) (h : node < n) :
    s.stacked[node]? = some (s.isStacked node) :=
  getElem?_eq_some_getD (hs.stacked.symm ▸ h) false

theorem Fits.withWork (h : Fits graph s) {work : List (Nat × Nat)}
    (hwork : ∀ place ∈ work, IsPlace graph place) : Fits graph { s with work } :=
  ⟨⟨h.sized.numbers, h.sized.lows, h.sized.stacked⟩, h.stack_lt, hwork⟩

theorem fits_start (graph : Graph) : Fits graph (start graph.size) :=
  ⟨(invariant_start graph).stack.sized, by simp [start], by simp [start]⟩

/-! ### The single moves -/

theorem Fits.meet (h : Fits graph s) (hnode : node < graph.size) : Fits graph (s.meet node) :=
  ⟨sized_meet h.sized, List.forall_mem_cons.mpr ⟨hnode, h.stack_lt⟩, h.isPlace⟩

theorem meet?_eq (hs : Sized n s) (hnode : node < n) : s.meet? node = some (s.meet node) := by
  unfold meet?
  rw [write?_eq (hs.numbers.symm ▸ hnode), write?_eq (hs.lows.symm ▸ hnode),
    write?_eq (hs.stacked.symm ▸ hnode)]
  rfl

theorem Fits.lowerBy (h : Fits graph s) (node child bound : Nat) :
    Fits graph (s.lowerBy node child bound) := by
  unfold Search.lowerBy
  split
  · exact ⟨sized_lower h.sized, h.stack_lt, h.isPlace⟩
  · exact h

theorem lowerBy?_eq (hs : Sized n s) (hnode : node < n) (hchild : child < n) (bound : Nat) :
    s.lowerBy? node child (some bound) = some (s.lowerBy node child bound) := by
  unfold lowerBy? lowerBy
  rw [hs.isStacked_eq hchild, hs.low_eq hnode, Option.bind_eq_bind, Option.bind_some]
  split
  · rw [Option.bind_eq_bind, Option.bind_some, Option.bind_eq_bind, Option.bind_some,
      write?_eq (hs.lows.symm ▸ hnode)]
    rfl
  · rfl

theorem Fits.enter (h : Fits graph s) (hplace : IsPlace graph (node, edge)) :
    Fits graph (Search.enter graph s node edge) := by
  cases edge with
  | zero => exact h.meet hplace.1
  | succ edge => exact h.lowerBy _ _ _

theorem enter?_eq (hrange : graph.InRange) (hs : Sized graph.size s)
    (hplace : IsPlace graph (node, edge)) :
    enter? graph s node edge = some (enter graph s node edge) := by
  obtain ⟨hnode, hedge⟩ := hplace
  cases edge with
  | zero => exact meet?_eq hs hnode
  | succ edge =>
      -- Back from a successor, which stands at the position before the place.
      have hlt : edge < (graph.next node).length := hedge
      have hget : (graph.next node)[edge]? = some ((graph.next node).getD edge node) := by
        rw [List.getD_eq_getElem?_getD, List.getElem?_eq_getElem hlt, Option.getD_some]
      have hchild := hrange node _ (List.mem_of_getElem? hget)
      rw [enter?, enter, Graph.successors_getElem? hnode, Option.bind_eq_bind, Option.bind_some,
        hget, Option.bind_eq_bind, Option.bind_some, hs.low_eq hchild]
      exact lowerBy?_eq hs hnode hchild _

/-! ### Looking at successors -/

theorem Fits.scan (h : Fits graph s) (node edge : Nat) (children : List Nat) :
    Fits graph (Search.scan node edge children s).1
      ∧ ∀ place ∈ (Search.scan node edge children s).2,
        place.1 ∈ children ∧ place.2 ≤ edge + children.length := by
  induction children generalizing edge s with
  | nil => exact ⟨h, by simp [Search.scan]⟩
  | cons child rest ih =>
      unfold Search.scan
      cases s.number? child with
      | none => exact ⟨h, by simp⟩
      | some number =>
          obtain ⟨hfits, hplace⟩ := ih (h.lowerBy node child number) (edge + 1)
          refine ⟨hfits, fun place hp => ?_⟩
          obtain ⟨hmem, hle⟩ := hplace place hp
          refine ⟨List.mem_cons_of_mem _ hmem, ?_⟩
          rw [List.length_cons]
          omega

theorem scan?_eq {children : List Nat} (h : Fits graph s) (hnode : node < graph.size)
    (hchildren : ∀ child ∈ children, child < graph.size) :
    scan? node edge children s = some (scan node edge children s) := by
  induction children generalizing edge s with
  | nil => rfl
  | cons child rest ih =>
      obtain ⟨hchild, hrest⟩ := List.forall_mem_cons.mp hchildren
      unfold scan? scan
      rw [h.sized.number?_eq hchild, Option.bind_eq_bind, Option.bind_some]
      cases s.number? child with
      | none => rfl
      | some number =>
          show (s.lowerBy? node child (some number)).bind _ = _
          rw [lowerBy?_eq h.sized hnode hchild, Option.bind_some]
          exact ih (h.lowerBy node child number) hrest

/-! ### Completing a part -/

theorem mem_of_mem_splitBehind {v : Nat} {stack : List Nat}
    (h : v ∈ (splitBehind node stack).1 ∨ v ∈ (splitBehind node stack).2) : v ∈ stack := by
  induction stack with
  | nil => simp [splitBehind] at h
  | cons top rest ih =>
      unfold splitBehind at h
      split at h
      · simpa using h
      · rw [List.mem_cons, or_assoc] at h
        exact List.mem_cons.mpr (h.imp_right ih)

theorem foldlM_write?_eq {part : List Nat} {marks : Array Bool}
    (h : ∀ member ∈ part, member < marks.size) :
    part.foldlM (fun marks member => write? marks member false) marks
      = some (part.foldl (fun marks member => marks.setIfInBounds member false) marks) := by
  induction part generalizing marks with
  | nil => rfl
  | cons member rest ih =>
      obtain ⟨hmember, hrest⟩ := List.forall_mem_cons.mp h
      rw [List.foldlM_cons, List.foldl_cons, write?_eq hmember, Option.bind_eq_bind,
        Option.bind_some]
      refine ih fun m hm => ?_
      rw [Array.size_setIfInBounds]
      exact hrest m hm

theorem Fits.complete (h : Fits graph s) (node : Nat) : Fits graph (s.complete node) where
  sized := ⟨h.sized.numbers, h.sized.lows,
    (size_foldl_setIfInBounds _ _).trans h.sized.stacked⟩
  stack_lt v hv := h.stack_lt v (mem_of_mem_splitBehind (Or.inr hv))
  isPlace := h.isPlace

theorem complete?_eq (h : Fits graph s) (node : Nat) :
    s.complete? node = some (s.complete node) := by
  have hpart : ∀ member ∈ (splitBehind node s.stack).1, member < s.stacked.size := by
    intro member hm
    rw [h.sized.stacked]
    exact h.stack_lt member (mem_of_mem_splitBehind (Or.inl hm))
  unfold complete? complete
  generalize splitBehind node s.stack = split at hpart ⊢
  obtain ⟨part, stack⟩ := split
  show Option.bind (part.foldlM _ s.stacked) _ = _
  rw [foldlM_write?_eq hpart]
  rfl

/-! ### A step -/

theorem leave_fits (h : Fits graph s) (hrange : graph.InRange)
    (hplace : IsPlace graph (node, edge)) :
    leave? graph s node edge = some (leave graph s node edge)
      ∧ Fits graph (leave graph s node edge) := by
  obtain ⟨hnode, hedge⟩ := hplace
  have hchildren : ∀ child ∈ (graph.next node).drop edge, child < graph.size :=
    fun child hc => hrange node child (List.mem_of_mem_drop hc)
  obtain ⟨hfits, hfound⟩ := h.scan node edge ((graph.next node).drop edge)
  unfold leave? leave
  rw [Graph.successors_getElem? hnode, Option.bind_eq_bind, Option.bind_some,
    scan?_eq h hnode hchildren, Option.bind_eq_bind, Option.bind_some]
  generalize scan node edge ((graph.next node).drop edge) s = r at hfits hfound ⊢
  obtain ⟨result, found⟩ := r
  cases found with
  | some place =>
      -- Down to a successor: the position behind it is one among the successors.
      obtain ⟨child, behind⟩ := place
      obtain ⟨hmem, hle⟩ := hfound (child, behind) rfl
      have hbehind : behind ≤ (graph.next node).length := by
        rw [List.length_drop] at hle
        have hedge : edge ≤ (graph.next node).length := hedge
        have hle : behind ≤ edge + ((graph.next node).length - edge) := hle
        omega
      refine ⟨rfl, hfits.withWork ?_⟩
      refine List.forall_mem_cons.mpr ⟨⟨hchildren child hmem, Nat.zero_le _⟩, ?_⟩
      exact List.forall_mem_cons.mpr ⟨⟨hnode, hbehind⟩, hfits.isPlace⟩
  | none =>
      show (result.numbers[node]?).bind _ = some (ite _ _ _) ∧ Fits graph (ite _ _ _)
      rw [hfits.sized.number?_eq hnode, Option.bind_some, hfits.sized.low_eq hnode,
        Option.bind_eq_bind, Option.bind_some]
      split
      · exact ⟨complete?_eq hfits node, hfits.complete node⟩
      · exact ⟨rfl, hfits⟩

theorem step_fits (h : Fits graph s) (hrange : graph.InRange) :
    step? graph s = some (step graph s) ∧ Fits graph (step graph s) := by
  unfold step? step
  cases hwork : s.work with
  | nil => exact ⟨rfl, h⟩
  | cons place work =>
      obtain ⟨node, edge⟩ := place
      obtain ⟨hplace, hrest⟩ := List.forall_mem_cons.mp (hwork ▸ h.isPlace)
      have hpopped := h.withWork hrest
      show (enter? graph { s with work } node edge).bind _ = _ ∧ _
      rw [enter?_eq hrange hpopped.sized hplace, Option.bind_some]
      exact leave_fits (hpopped.enter hplace) hrange hplace

/-! ### A whole search -/

/-- A search that has enough fuel to come to its end gives what it gives without a bound. -/
theorem run_fits (hrange : graph.InRange) :
    ∀ (fuel : Nat) (s : Search), Fits graph s → Ready graph s → remaining graph s ≤ fuel →
      run? graph s = some (run graph fuel s) ∧ Fits graph (run graph fuel s) := by
  intro fuel
  induction fuel with
  | zero =>
      -- Nothing remains, so there is no place to go on from.
      intro s h _ hle
      have hwork : s.work = [] := by
        refine List.eq_nil_of_length_eq_zero ?_
        unfold remaining at hle
        omega
      rw [run?, hwork]
      exact ⟨rfl, h⟩
  | succ fuel ih =>
      intro s h hready hle
      rw [run?, run]
      cases hwork : s.work with
      | nil => exact ⟨rfl, h⟩
      | cons place rest =>
          obtain ⟨hstep, hfits⟩ := step_fits h hrange
          obtain ⟨hready', hlt, -⟩ := hready.step hrange (by rw [hwork]; exact List.cons_ne_nil _ _)
          show (step? graph s).bind _ = _ ∧ _
          rw [hstep, Option.bind_some]
          exact ih _ hfits hready' (by omega)

theorem explore_fits (h : Fits graph s) (hinv : Invariant graph s []) (hrange : graph.InRange)
    {root : Nat} (hroot : root < graph.size) :
    explore? graph s root = some (explore graph s root) ∧ Fits graph (explore graph s root) := by
  unfold explore? explore
  rw [h.sized.number?_eq hroot, Option.bind_eq_bind, Option.bind_some]
  cases hnumber : s.number? root with
  | some number => exact ⟨rfl, h⟩
  | none =>
      obtain ⟨hready, hle⟩ := hinv.ready_root hroot hnumber
      refine run_fits hrange _ _ (h.withWork ?_) hready hle
      exact List.forall_mem_singleton.mpr ⟨hroot, Nat.zero_le _⟩

theorem foldlM_explore?_eq (hrange : graph.InRange) :
    ∀ (roots : List Nat) (s : Search), (∀ root ∈ roots, root < graph.size) → Fits graph s →
      Invariant graph s [] →
        roots.foldlM (explore? graph) s = some (roots.foldl (explore graph) s) := by
  intro roots
  induction roots with
  | nil => exact fun s _ _ _ => rfl
  | cons root roots ih =>
      intro s hroots h hinv
      obtain ⟨hroot, hrest⟩ := List.forall_mem_cons.mp hroots
      obtain ⟨hexplore, hfits⟩ := explore_fits h hinv hrange hroot
      rw [List.foldlM_cons, List.foldl_cons, hexplore, Option.bind_eq_bind, Option.bind_some]
      exact ih _ hrest hfits (hinv.explore hrange hroot).1

end Search

namespace Graph

variable {graph : Graph} {u v : Nat}

/-- The search for the parts ends, and no read or write of it misses its table. -/
theorem components?_eq (hrange : graph.InRange) : graph.components? = some graph.components := by
  have hroots : ∀ root ∈ List.range graph.size, root < graph.size :=
    fun root hr => List.mem_range.mp hr
  unfold components?
  rw [Search.foldlM_explore?_eq hrange _ _ hroots (Search.fits_start graph)
    (Search.invariant_start graph)]
  rfl

/-! ### The list of all parts -/

/-- A list of the classes of mutual reachability that have more than one node. -/
structure ListsParts (graph : Graph) (parts : List (List Nat)) : Prop where
  lt_size : ∀ part ∈ parts, ∀ u ∈ part, u < graph.size
  one_lt_length : ∀ part ∈ parts, 1 < part.length
  nodup : ∀ part ∈ parts, part.Nodup
  reach : ∀ part ∈ parts, ∀ u ∈ part, ∀ v ∈ part, graph.Reach u v
  maximal : ∀ part ∈ parts, ∀ u ∈ part, ∀ v ∉ part, ¬ graph.Mutual u v
  /-- Each class stands at one position of the list. -/
  once : ∀ u < graph.size, ∀ v ≠ u, graph.Mutual u v →
    ∃! i : Nat, ∃ part, parts[i]? = some part ∧ ∀ w, w ∈ part ↔ graph.Mutual u w

theorem Mutual.refl (u : Nat) : graph.Mutual u u := ⟨Reach.refl u, Reach.refl u⟩

/-- A node is in the parts at no two positions. -/
theorem eq_of_mem_components (hrange : graph.InRange) {i j : Nat} {p q : List Nat}
    (hi : graph.components[i]? = some p) (hj : graph.components[j]? = some q)
    (hp : u ∈ p) (hq : u ∈ q) : i = j := by
  have hdisjoint := List.pairwise_iff_getElem.mp (components_disjoint hrange)
  obtain ⟨hilt, rfl⟩ := List.getElem?_eq_some_iff.mp hi
  obtain ⟨hjlt, rfl⟩ := List.getElem?_eq_some_iff.mp hj
  rcases Nat.lt_trichotomy i j with hlt | heq | hlt
  · exact absurd hq (hdisjoint i j hilt hjlt hlt u hp)
  · exact heq
  · exact absurd hp (hdisjoint j i hjlt hilt hlt u hq)

/-- The class of a node that belongs together with another is one of the parts. -/
theorem exists_position (hrange : graph.InRange) (hu : u < graph.size) (hne : u ≠ v)
    (h : graph.Mutual u v) :
    ∃ (i : Nat) (part : List Nat), graph.components[i]? = some part
      ∧ ∀ w, w ∈ part ↔ graph.Mutual u w := by
  obtain ⟨part, hpart, hmem⟩ := exists_component hrange hu hne h
  obtain ⟨i, hi⟩ := List.mem_iff_getElem?.mp hpart
  exact ⟨i, part, hi, (isPart_of_mem_components hrange hpart).1.mem_iff u hmem⟩

/-- In a graph whose edges end at nodes the search for the strongly connected parts ends, stays
within its tables and gives each class of more than one node once. -/
theorem components_listsParts (graph : Graph) (hrange : graph.InRange) :
    graph.components? = some graph.components ∧ graph.ListsParts graph.components := by
  have hpart : ∀ part ∈ graph.components, Search.IsPart graph part ∧ ∀ v ∈ part, v < graph.size :=
    fun part hp => isPart_of_mem_components hrange hp
  refine ⟨components?_eq hrange, ?_⟩
  constructor
  case lt_size => exact fun part hp => (hpart part hp).2
  case one_lt_length => exact fun part hp => (hpart part hp).1.one_lt_length
  case nodup => exact fun part hp => (hpart part hp).1.nodup
  case reach =>
      intro part hp u hu v hv
      exact (((hpart part hp).1.mem_iff u hu v).mp hv).1
  case maximal =>
      intro part hp u hu v hv hmutual
      exact hv (((hpart part hp).1.mem_iff u hu v).mpr hmutual)
  case once =>
      intro u hu v hne hmutual
      obtain ⟨i, part, hi, hmem⟩ := exists_position hrange hu hne.symm hmutual
      refine ⟨i, ⟨part, hi, hmem⟩, ?_⟩
      intro j hj
      obtain ⟨other, hother, hmem'⟩ := hj
      exact eq_of_mem_components hrange hother hi ((hmem' u).mpr (Mutual.refl u))
        ((hmem u).mpr (Mutual.refl u))

/-- Edges end at nodes if the successors that are written down do. -/
theorem inRange_of_forall (h : ∀ children ∈ graph.successors, ∀ child ∈ children,
    child < graph.size) : graph.InRange := by
  intro node child hchild
  unfold next at hchild
  by_cases hnode : node < graph.successors.size
  · rw [Array.getD_eq_getD_getElem?, Array.getElem?_eq_getElem hnode, Option.getD_some] at hchild
    exact h _ (Array.getElem_mem hnode) child hchild
  · rw [Array.getD_eq_getD_getElem?, Array.getElem?_eq_none (Nat.le_of_not_lt hnode)] at hchild
    exact absurd hchild List.not_mem_nil

/-- A graph with two cycles that an edge leads between, a loop, an edge that stands twice and a node
without successors. -/
def twoCycles : Graph := ⟨#[[1, 1, 0], [2], [0, 3], [4, 5], [3], []]⟩

theorem twoCycles_listsParts :
    twoCycles.components? = some [[4, 3], [2, 1, 0]]
      ∧ twoCycles.ListsParts [[4, 3], [2, 1, 0]] := by
  have hrange : twoCycles.InRange := inRange_of_forall (by decide)
  have hparts : twoCycles.components = [[4, 3], [2, 1, 0]] := by decide +kernel
  rw [← hparts]
  exact components_listsParts twoCycles hrange

end Graph

end PackageAudit
