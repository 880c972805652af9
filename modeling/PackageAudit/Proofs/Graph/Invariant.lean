/-
What holds while the depth-first search runs.

The places that the search still has to go on from form a path: the nodes on it have been
met, and each but the last one is a predecessor of the next.  A node that has been met is on
the path, or is on the stack although all its successors have been looked at, or is done, and
then so is all that can be reached from it.

The argument rests on the low numbers.  The low number of a node on the stack belongs to a
node on the stack that it reaches, and is smaller than its own number unless it is on the
path.  In the other direction, an edge that was looked at and leads to a node on the stack is
known to some node of the path between the ends of the edge and the end of the path: its low
number is at most the number of the node that the edge leads to.  So if the last node of the
path has no smaller low number than its own, no edge leads from the stack above it to the
stack below it, and what stands above it is its part.

The invariant speaks of the search when it has just come to the last node of the path.
-/
import Mathlib.Data.Finset.Card
import PackageAudit.Proofs.Graph.Search

namespace PackageAudit.Search

variable {graph : Graph} {s : Search} {path rest : List (Nat × Nat)} {node child edge u v w : Nat}

/-- Whether an edge has been looked at: all edges of a node have, except those behind the place at
which the search goes on from it. -/
def Examined (graph : Graph) (path : List (Nat × Nat)) (u v : Nat) : Prop :=
  v ∈ graph.next u ∧ ∀ edge, (u, edge) ∈ path → v ∈ (graph.next u).take edge

/-- Nodes that have been met and are not on the stack any more. -/
def Done (s : Search) (v : Nat) : Prop := s.Met v ∧ v ∉ s.stack

/-- A place of the path is one behind the successor that the search went down to. -/
def LeadsTo (graph : Graph) (next place : Nat × Nat) : Prop :=
  ∃ k, place.2 = k + 1 ∧ (graph.next place.1)[k]? = some next.1

/-- The numbers and the stack. -/
structure Stacked (graph : Graph) (s : Search) : Prop where
  sized : Sized graph.size s
  /-- Numbers are given in ascending order. -/
  num_lt : ∀ v, s.Met v → s.num v < s.count
  num_inj : ∀ u v, s.Met u → s.Met v → s.num u = s.num v → u = v
  isStacked_iff : ∀ v, s.isStacked v = true ↔ v ∈ s.stack
  met : ∀ v ∈ s.stack, s.Met v
  /-- The last node that was met is on top. -/
  descending : s.stack.Pairwise fun u v => s.num v < s.num u

/-- The path. -/
structure OnPath (graph : Graph) (s : Search) (path : List (Nat × Nat)) : Prop where
  stacked : ∀ place ∈ path, place.1 ∈ s.stack
  descending : path.Pairwise fun p q => s.num q.1 < s.num p.1
  chain : path.IsChain (LeadsTo graph)
  /-- A node of the path reaches what was put on the stack after it. -/
  reach : ∀ place ∈ path, ∀ v ∈ s.stack, s.num place.1 ≤ s.num v → graph.Reach place.1 v
  /-- Edges that were looked at lead to nodes that have been met. -/
  examined : ∀ u v, s.Met u → Examined graph path u v → s.Met v

/-- The low numbers. -/
structure LowNumbers (graph : Graph) (s : Search) (path : List (Nat × Nat)) : Prop where
  le_num : ∀ v ∈ s.stack, s.low v ≤ s.num v
  reached : ∀ v ∈ s.stack, ∃ w ∈ s.stack, s.num w = s.low v ∧ graph.Reach v w
  lt_num : ∀ v ∈ s.stack, (∀ edge, (v, edge) ∉ path) → s.low v < s.num v
  known : ∀ place ∈ path, ∀ u ∈ s.stack, s.num place.1 ≤ s.num u →
    ∀ v ∈ s.stack, Examined graph path u v →
      ∃ q ∈ path, s.num place.1 ≤ s.num q.1 ∧ s.low q.1 ≤ s.num v

/-- A list of the nodes of a strongly connected part of more than one node. -/
structure IsPart (graph : Graph) (part : List Nat) : Prop where
  nodup : part.Nodup
  one_lt_length : 1 < part.length
  mem_iff : ∀ u ∈ part, ∀ v, v ∈ part ↔ graph.Mutual u v

/-- The parts that are complete. -/
structure Parts (graph : Graph) (s : Search) : Prop where
  closed : ∀ u, s.Done u → ∀ v ∈ graph.next u, s.Done v
  isPart : ∀ part ∈ s.parts, IsPart graph part
  done : ∀ part ∈ s.parts, ∀ v ∈ part, s.Done v
  disjoint : s.parts.Pairwise fun p q => ∀ v ∈ p, v ∉ q
  covered : ∀ u v, s.Done u → u ≠ v → graph.Mutual u v → ∃ part ∈ s.parts, u ∈ part

/-- What holds when the search has come to the last node of a path. -/
structure Invariant (graph : Graph) (s : Search) (path : List (Nat × Nat)) : Prop where
  stack : Stacked graph s
  onPath : OnPath graph s path
  low : LowNumbers graph s path
  parts : Parts graph s

/-! ### Consequences -/

theorem Stacked.nodup (h : Stacked graph s) : s.stack.Nodup :=
  h.descending.imp fun hlt heq => by rw [heq] at hlt; exact Nat.lt_irrefl _ hlt

theorem Invariant.withWork (h : Invariant graph s path) (work : List (Nat × Nat)) :
    Invariant graph { s with work } path := by
  obtain ⟨⟨h₁, h₂, h₃, h₄, h₅, h₆⟩, ⟨p₁, p₂, p₃, p₄, p₅⟩, ⟨l₁, l₂, l₃, l₄⟩, ⟨q₁, q₂, q₃, q₄, q₅⟩⟩ := h
  exact ⟨⟨⟨h₁.1, h₁.2, h₁.3⟩, h₂, h₃, h₄, h₅, h₆⟩, ⟨p₁, p₂, p₃, p₄, p₅⟩, ⟨l₁, l₂, l₃, l₄⟩,
    ⟨q₁, q₂, q₃, q₄, q₅⟩⟩

/-- The number of a node that is on the path is below those of the places behind it. -/
theorem OnPath.num_lt (h : OnPath graph s ((node, edge) :: rest)) :
    ∀ place ∈ rest, s.num place.1 < s.num node :=
  (List.pairwise_cons.mp h.descending).1

/-- Without a path the stack is empty: each node on it would reach one below it. -/
theorem Invariant.stack_eq_nil (h : Invariant graph s []) : s.stack = [] := by
  have hnot : ∀ n, ∀ v ∈ s.stack, s.num v ≠ n := by
    intro n
    induction n using Nat.strong_induction_on with
    | _ n ih =>
        intro v hv hn
        have hlt := h.low.lt_num v hv (fun _ => List.not_mem_nil)
        obtain ⟨w, hw, hwlow, -⟩ := h.low.reached v hv
        exact ih (s.num w) (by omega) w hw rfl
  exact List.eq_nil_iff_forall_not_mem.mpr fun v hv => hnot _ v hv rfl

/-! ### Meeting a node -/

theorem Stacked.meet (h : Stacked graph s) (hnew : ¬ s.Met child) (hlt : child < graph.size) :
    Stacked graph (s.meet child) := by
  have hne : ∀ v, s.Met v → v ≠ child := fun v hv hc => hnew (hc ▸ hv)
  refine ⟨sized_meet h.sized, ?_, ?_, ?_, ?_, ?_⟩
  · intro v hv
    show (s.meet child).num v < s.count + 1
    rcases (met_meet h.sized hlt).mp hv with rfl | hv
    · rw [num_meet_self h.sized hlt]
      exact Nat.lt_succ_self _
    · rw [num_meet_ne h.sized hlt (hne v hv)]
      exact Nat.lt_succ_of_lt (h.num_lt v hv)
  · intro u v hu hv heq
    rcases (met_meet h.sized hlt).mp hu with huc | hu <;>
      rcases (met_meet h.sized hlt).mp hv with hvc | hv
    · rw [huc, hvc]
    · rw [huc, num_meet_self h.sized hlt, num_meet_ne h.sized hlt (hne v hv)] at heq
      exact absurd (h.num_lt v hv) (by omega)
    · rw [hvc, num_meet_self h.sized hlt, num_meet_ne h.sized hlt (hne u hu)] at heq
      exact absurd (h.num_lt u hu) (by omega)
    · rw [num_meet_ne h.sized hlt (hne u hu), num_meet_ne h.sized hlt (hne v hv)] at heq
      exact h.num_inj u v hu hv heq
  · intro v
    rw [isStacked_meet h.sized hlt]
    show _ ↔ v ∈ child :: s.stack
    by_cases hv : v = child
    · simp [hv]
    · simp [hv, h.isStacked_iff]
  · intro v hv
    rcases List.mem_cons.mp hv with hv | hv
    · exact (met_meet h.sized hlt).mpr (Or.inl hv)
    · exact (met_meet h.sized hlt).mpr (Or.inr (h.met v hv))
  · refine List.pairwise_cons.mpr ⟨?_, ?_⟩
    · intro v hv
      rw [num_meet_self h.sized hlt, num_meet_ne h.sized hlt (hne v (h.met v hv))]
      exact h.num_lt v (h.met v hv)
    · refine List.Pairwise.imp_of_mem ?_ h.descending
      intro u v hu hv huv
      rw [num_meet_ne h.sized hlt (hne u (h.met u hu)),
        num_meet_ne h.sized hlt (hne v (h.met v hv))]
      exact huv

theorem done_meet (h : Stacked graph s) (hnew : ¬ s.Met child) (hlt : child < graph.size) :
    (s.meet child).Done v ↔ s.Done v := by
  unfold Done
  rw [met_meet h.sized hlt]
  show (v = child ∨ s.Met v) ∧ v ∉ child :: s.stack ↔ _
  refine ⟨?_, ?_⟩
  · rintro ⟨hv, hstack⟩
    rw [List.mem_cons, not_or] at hstack
    exact ⟨hv.resolve_left hstack.1, hstack.2⟩
  · rintro ⟨hv, hstack⟩
    refine ⟨Or.inr hv, ?_⟩
    rw [List.mem_cons, not_or]
    exact ⟨fun hc => hnew (hc ▸ hv), hstack⟩

theorem Parts.meet (h : Parts graph s) (hs : Stacked graph s) (hnew : ¬ s.Met child)
    (hlt : child < graph.size) : Parts graph (s.meet child) where
  closed u hu v hv := by
    rw [done_meet hs hnew hlt] at hu ⊢
    exact h.closed u hu v hv
  isPart := h.isPart
  done part hpart v hv := by
    rw [done_meet hs hnew hlt]
    exact h.done part hpart v hv
  disjoint := h.disjoint
  covered u v hu := by
    rw [done_meet hs hnew hlt] at hu
    exact h.covered u v hu

/-- Of a node that was just met no edge has been looked at. -/
theorem Examined.of_cons_zero {path : List (Nat × Nat)}
    (h : Examined graph ((child, 0) :: path) u v) : u ≠ child ∧ Examined graph path u v := by
  refine ⟨?_, h.1, fun edge he => h.2 edge (List.mem_cons_of_mem _ he)⟩
  intro heq
  obtain rfl := heq
  simpa using h.2 0 List.mem_cons_self

/-- Paths over the same nodes have the same places, up to the positions. -/
theorem exists_place {path path' : List (Nat × Nat)}
    (hnodes : path'.map Prod.fst = path.map Prod.fst) {place : Nat × Nat} (h : place ∈ path') :
    ∃ p ∈ path, p.1 = place.1 := by
  have hmem : place.1 ∈ path'.map Prod.fst := List.mem_map_of_mem h
  rw [hnodes] at hmem
  exact List.mem_map.mp hmem

section Meet

variable {path' : List (Nat × Nat)}

theorem OnPath.meet (h : OnPath graph s path) (hs : Stacked graph s) (hnew : ¬ s.Met child)
    (hlt : child < graph.size) (hnodes : path'.map Prod.fst = path.map Prod.fst)
    (hexam : ∀ u v, Examined graph path' u v → Examined graph path u v ∨ v = child)
    (hreach : ∀ place ∈ path, graph.Reach place.1 child)
    (hchain : ((child, 0) :: path').IsChain (LeadsTo graph)) :
    OnPath graph (s.meet child) ((child, 0) :: path') := by
  have hnum : ∀ v ∈ s.stack, (s.meet child).num v = s.num v := fun v hv =>
    num_meet_ne hs.sized hlt fun hc => hnew (hc ▸ hs.met v hv)
  have hself : (s.meet child).num child = s.count := num_meet_self hs.sized hlt
  have hplace : ∀ place ∈ path', place.1 ∈ s.stack := by
    intro place hp
    obtain ⟨p, hp, heq⟩ := exists_place hnodes hp
    exact heq ▸ h.stacked p hp
  refine ⟨?_, ?_, hchain, ?_, ?_⟩
  · intro place hp
    rcases List.mem_cons.mp hp with rfl | hp
    · exact List.mem_cons_self
    · exact List.mem_cons_of_mem _ (hplace place hp)
  · refine List.pairwise_cons.mpr ⟨?_, ?_⟩
    · intro q hq
      rw [hself, hnum _ (hplace q hq)]
      exact hs.num_lt _ (hs.met _ (hplace q hq))
    · have hdesc : (path'.map Prod.fst).Pairwise fun u v => s.num v < s.num u := by
        rw [hnodes]
        exact List.pairwise_map.mpr h.descending
      refine List.Pairwise.imp_of_mem ?_ (List.pairwise_map.mp hdesc)
      intro p q hp hq hpq
      rw [hnum _ (hplace p hp), hnum _ (hplace q hq)]
      exact hpq
  · intro place hp v hv hle
    rcases List.mem_cons.mp hp with rfl | hp <;> rcases List.mem_cons.mp hv with hvc | hv
    · rw [hvc]
      exact Graph.Reach.refl child
    · rw [hself, hnum v hv] at hle
      exact absurd (hs.num_lt v (hs.met v hv)) (by omega)
    · obtain ⟨p, hp, heq⟩ := exists_place hnodes hp
      rw [hvc, ← heq]
      exact hreach p hp
    · rw [hnum v hv, hnum _ (hplace place hp)] at hle
      obtain ⟨p, hp, heq⟩ := exists_place hnodes hp
      rw [← heq] at hle ⊢
      exact h.reach p hp v hv hle
  · intro u v hu hex
    obtain ⟨hne, hex⟩ := hex.of_cons_zero
    have hu : s.Met u := ((met_meet hs.sized hlt).mp hu).resolve_left hne
    rw [met_meet hs.sized hlt]
    rcases hexam u v hex with hex | rfl
    · exact Or.inr (h.examined u v hu hex)
    · exact Or.inl rfl

theorem LowNumbers.meet (h : LowNumbers graph s path) (hs : Stacked graph s)
    (hp : OnPath graph s path) (hnew : ¬ s.Met child) (hlt : child < graph.size)
    (hnodes : path'.map Prod.fst = path.map Prod.fst)
    (hexam : ∀ u v, Examined graph path' u v → Examined graph path u v ∨ v = child) :
    LowNumbers graph (s.meet child) ((child, 0) :: path') := by
  have hne : ∀ v ∈ s.stack, v ≠ child := fun v hv hc => hnew (hc ▸ hs.met v hv)
  have hnum : ∀ v ∈ s.stack, (s.meet child).num v = s.num v := fun v hv =>
    num_meet_ne hs.sized hlt (hne v hv)
  have hlow : ∀ v ∈ s.stack, (s.meet child).low v = s.low v := by
    intro v hv
    rw [low_meet hs.sized hlt, if_neg (hne v hv)]
  have hself : (s.meet child).num child = s.count := num_meet_self hs.sized hlt
  have hlself : (s.meet child).low child = s.count := by
    rw [low_meet hs.sized hlt, if_pos rfl]
  refine ⟨?_, ?_, ?_, ?_⟩
  · intro v hv
    rcases List.mem_cons.mp hv with rfl | hv
    · rw [hself, hlself]
    · rw [hnum v hv, hlow v hv]
      exact h.le_num v hv
  · intro v hv
    rcases List.mem_cons.mp hv with rfl | hv
    · exact ⟨v, List.mem_cons_self, by rw [hself, hlself], Graph.Reach.refl v⟩
    · obtain ⟨w, hw, hwlow, hreach⟩ := h.reached v hv
      exact ⟨w, List.mem_cons_of_mem _ hw, by rw [hnum w hw, hlow v hv, hwlow], hreach⟩
  · intro v hv hoff
    rcases List.mem_cons.mp hv with rfl | hv
    · exact absurd List.mem_cons_self (hoff 0)
    · rw [hnum v hv, hlow v hv]
      refine h.lt_num v hv fun edge he => ?_
      obtain ⟨⟨x, edge'⟩, hp', rfl⟩ := exists_place hnodes.symm he
      exact hoff edge' (List.mem_cons_of_mem _ hp')
  · intro place hplace u hu hle v hv hex
    obtain ⟨huc, hex⟩ := hex.of_cons_zero
    have hu : u ∈ s.stack := (List.mem_cons.mp hu).resolve_left huc
    rcases List.mem_cons.mp hplace with rfl | hplace
    · rw [hself, hnum u hu] at hle
      exact absurd (hs.num_lt u (hs.met u hu)) (by omega)
    · obtain ⟨p, hpp, heq⟩ := exists_place hnodes hplace
      have hpst := hp.stacked p hpp
      rw [← heq, hnum u hu, hnum _ hpst] at hle
      rcases List.mem_cons.mp hv with hvc | hv
      · -- The edge leads to the new node, whose number is above all low numbers.
        refine ⟨place, List.mem_cons_of_mem _ hplace, Nat.le_refl _, ?_⟩
        rw [hvc, ← heq, hself, hlow _ hpst]
        have := h.le_num _ hpst
        have := hs.num_lt _ (hs.met _ hpst)
        omega
      · have hex : Examined graph path u v := (hexam u v hex).resolve_right (hne v hv)
        obtain ⟨q, hq, hpq, hqv⟩ := h.known p hpp u hu hle v hv hex
        have hqst := hp.stacked q hq
        obtain ⟨q', hq', hqeq⟩ := exists_place hnodes.symm hq
        refine ⟨q', List.mem_cons_of_mem _ hq', ?_, ?_⟩
        · rw [← heq, hqeq, hnum _ hpst, hnum _ hqst]
          exact hpq
        · rw [hqeq, hlow _ hqst, hnum v hv]
          exact hqv

theorem Invariant.meet (h : Invariant graph s path) (hnew : ¬ s.Met child)
    (hlt : child < graph.size) (hnodes : path'.map Prod.fst = path.map Prod.fst)
    (hexam : ∀ u v, Examined graph path' u v → Examined graph path u v ∨ v = child)
    (hreach : ∀ place ∈ path, graph.Reach place.1 child)
    (hchain : ((child, 0) :: path').IsChain (LeadsTo graph)) :
    Invariant graph (s.meet child) ((child, 0) :: path') where
  stack := h.stack.meet hnew hlt
  onPath := h.onPath.meet h.stack hnew hlt hnodes hexam hreach hchain
  low := h.low.meet h.stack h.onPath hnew hlt hnodes hexam
  parts := h.parts.meet h.stack hnew hlt

end Meet

end PackageAudit.Search
