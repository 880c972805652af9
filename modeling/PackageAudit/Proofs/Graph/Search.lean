/-
What the single moves of the depth-first search do.

Each move changes a few tables, and all later arguments speak of what the tables say and never
of how they are stored.  So each move gets its equations here: which number, which low number
and which stack there are after it.  The tables must be as large as the graph for this, since a
write outside a table is lost.
-/
import Mathlib.Logic.Relation
import Mathlib.Data.List.Basic
import PackageAudit.Graph

namespace PackageAudit

theorem getD_setIfInBounds {α : Type} (a : Array α) (i j : Nat) (x d : α) (h : i < a.size) :
    (a.setIfInBounds i x).getD j d = if j = i then x else a.getD j d := by
  rw [Array.getD_eq_getD_getElem?, Array.getD_eq_getD_getElem?, Array.getElem?_setIfInBounds]
  by_cases hji : i = j
  · subst hji
    simp [h]
  · rw [if_neg hji, if_neg (fun hc => hji hc.symm)]

theorem lt_size_of_getD_ne {α : Type} {a : Array α} {i : Nat} {d : α} (h : a.getD i d ≠ d) :
    i < a.size := by
  by_contra hc
  apply h
  rw [Array.getD_eq_getD_getElem?, Array.getElem?_eq_none (Nat.le_of_not_lt hc)]
  rfl

namespace Graph

/-- Whether a node can be reached from another along edges. -/
def Reach (graph : Graph) : Nat → Nat → Prop :=
  Relation.ReflTransGen fun node child => child ∈ graph.next node

/-- Whether each of two nodes can be reached from the other. -/
def Mutual (graph : Graph) (u v : Nat) : Prop := graph.Reach u v ∧ graph.Reach v u

/-- All edges end at nodes of the graph. -/
def InRange (graph : Graph) : Prop := ∀ node, ∀ child ∈ graph.next node, child < graph.size

variable {graph : Graph} {u v w : Nat}

theorem Reach.refl (u : Nat) : graph.Reach u u := Relation.ReflTransGen.refl

theorem Reach.trans (h₁ : graph.Reach u v) (h₂ : graph.Reach v w) : graph.Reach u w :=
  Relation.ReflTransGen.trans h₁ h₂

theorem Reach.edge (h : v ∈ graph.next u) : graph.Reach u v := Relation.ReflTransGen.single h

/-- A set of nodes that no edge leaves is not left by any path. -/
theorem Reach.stays {P : Nat → Prop} (hclosed : ∀ u, P u → ∀ v ∈ graph.next u, P v)
    (h : graph.Reach u v) (hu : P u) : P v := by
  induction h with
  | refl => exact hu
  | tail _ hedge ih => exact hclosed _ ih _ hedge

end Graph

namespace Search

variable {graph : Graph} {s : Search} {node v : Nat}

/-- Whether a node has been met. -/
def Met (s : Search) (v : Nat) : Prop := s.number? v ≠ none

/-- The number of a node that has been met. -/
def num (s : Search) (v : Nat) : Nat := (s.number? v).getD 0

/-- The tables have a place for each of `n` nodes. -/
structure Sized (n : Nat) (s : Search) : Prop where
  numbers : s.numbers.size = n
  lows : s.lows.size = n
  stacked : s.stacked.size = n

theorem number?_of_met (h : s.Met v) : s.number? v = some (s.num v) := by
  unfold Met at h
  unfold num
  cases hv : s.number? v with
  | none => exact absurd hv h
  | some i => rfl

theorem met_of_number? {i : Nat} (h : s.number? v = some i) : s.Met v := by
  unfold Met
  rw [h]
  exact Option.some_ne_none i

theorem num_of_number? {i : Nat} (h : s.number? v = some i) : s.num v = i := by
  unfold num
  rw [h]
  rfl

theorem lt_size_of_met {n : Nat} (hs : Sized n s) (h : s.Met v) : v < n := by
  rw [← hs.numbers]
  exact lt_size_of_getD_ne h

/-! ### Meeting a node -/

theorem number?_meet {n : Nat} (hs : Sized n s) (hnode : node < n) (v : Nat) :
    (s.meet node).number? v = if v = node then some s.count else s.number? v :=
  getD_setIfInBounds _ _ _ _ _ (by rw [hs.numbers]; exact hnode)

theorem low_meet {n : Nat} (hs : Sized n s) (hnode : node < n) (v : Nat) :
    (s.meet node).low v = if v = node then s.count else s.low v :=
  getD_setIfInBounds _ _ _ _ _ (by rw [hs.lows]; exact hnode)

theorem isStacked_meet {n : Nat} (hs : Sized n s) (hnode : node < n) (v : Nat) :
    (s.meet node).isStacked v = if v = node then true else s.isStacked v :=
  getD_setIfInBounds _ _ _ _ _ (by rw [hs.stacked]; exact hnode)

theorem sized_meet {n : Nat} (hs : Sized n s) : Sized n (s.meet node) where
  numbers := by simp [meet, hs.numbers]
  lows := by simp [meet, hs.lows]
  stacked := by simp [meet, hs.stacked]

theorem met_meet {n : Nat} (hs : Sized n s) (hnode : node < n) :
    (s.meet node).Met v ↔ v = node ∨ s.Met v := by
  unfold Met
  rw [number?_meet hs hnode]
  by_cases hv : v = node <;> simp [hv]

theorem num_meet_self {n : Nat} (hs : Sized n s) (hnode : node < n) :
    (s.meet node).num node = s.count := by
  unfold num
  rw [number?_meet hs hnode]
  simp

theorem num_meet_ne {n : Nat} (hs : Sized n s) (hnode : node < n) (hv : v ≠ node) :
    (s.meet node).num v = s.num v := by
  unfold num
  rw [number?_meet hs hnode, if_neg hv]

/-! ### Lowering a low number -/

theorem low_lower {n bound : Nat} (hs : Sized n s) (hnode : node < n) (v : Nat) :
    (s.lower node bound).low v = if v = node then min (s.low node) bound else s.low v :=
  getD_setIfInBounds _ _ _ _ _ (by rw [hs.lows]; exact hnode)

theorem low_lower_le {n bound : Nat} (hs : Sized n s) (hnode : node < n) (v : Nat) :
    (s.lower node bound).low v ≤ s.low v := by
  rw [low_lower hs hnode]
  split
  · rename_i hv
    rw [hv]
    exact Nat.min_le_left _ _
  · exact Nat.le_refl _

theorem sized_lower {n bound : Nat} (hs : Sized n s) : Sized n (s.lower node bound) where
  numbers := hs.numbers
  lows := by simp [lower, hs.lows]
  stacked := hs.stacked

/-! ### Splitting the stack -/

theorem splitBehind_append {stack : List Nat} (h : node ∈ stack) :
    ∃ above below, splitBehind node stack = (above ++ [node], below)
      ∧ stack = above ++ node :: below := by
  induction stack with
  | nil => simp at h
  | cons top rest ih =>
      unfold splitBehind
      by_cases htop : top = node
      · subst htop
        exact ⟨[], rest, by simp, by simp⟩
      · have hrest : node ∈ rest := by
          rcases List.mem_cons.mp h with hc | hc
          · exact absurd hc.symm htop
          · exact hc
        obtain ⟨above, below, hsplit, hstack⟩ := ih hrest
        refine ⟨top :: above, below, ?_, by simp [hstack]⟩
        simp [htop, hsplit]

theorem size_foldl_setIfInBounds (part : List Nat) (marks : Array Bool) :
    (part.foldl (fun marks member => marks.setIfInBounds member false) marks).size
      = marks.size := by
  induction part generalizing marks with
  | nil => rfl
  | cons member rest ih => rw [List.foldl_cons, ih, Array.size_setIfInBounds]

theorem getD_foldl_setIfInBounds {part : List Nat} {marks : Array Bool}
    (h : ∀ member ∈ part, member < marks.size) (v : Nat) :
    (part.foldl (fun marks member => marks.setIfInBounds member false) marks).getD v false
      = if v ∈ part then false else marks.getD v false := by
  induction part generalizing marks with
  | nil => simp
  | cons member rest ih =>
      have hrest : ∀ m ∈ rest, m < (marks.setIfInBounds member false).size := by
        intro m hm
        rw [Array.size_setIfInBounds]
        exact h m (List.mem_cons_of_mem _ hm)
      rw [List.foldl_cons, ih hrest, getD_setIfInBounds _ _ _ _ _ (h member List.mem_cons_self)]
      by_cases hv : v = member <;> by_cases hr : v ∈ rest <;> simp [hv, hr]

/-! ### Looking at successors -/

theorem scan_keeps (node edge : Nat) (children : List Nat) (s : Search) :
    (scan node edge children s).1.work = s.work
      ∧ (scan node edge children s).1.numbers = s.numbers := by
  induction children generalizing edge s with
  | nil => exact ⟨rfl, rfl⟩
  | cons child rest ih =>
      unfold scan
      split
      · exact ⟨rfl, rfl⟩
      · obtain ⟨hwork, hnumbers⟩ := ih (edge + 1) (s.lowerBy node child _)
        rw [hwork, hnumbers]
        unfold lowerBy
        split <;> exact ⟨rfl, rfl⟩

end Search

end PackageAudit
