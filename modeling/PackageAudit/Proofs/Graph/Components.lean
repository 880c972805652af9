/-
The depth-first search finds the strongly connected parts.

A step of the search keeps the invariant, and it lowers a measure: twice the number of nodes
that have not been met, plus the number of places to go on from.  So the search from a root
ends within the bound that is put on it, whatever the graph; then the path is empty, hence so
is the stack, and all nodes that were met are done.  When all roots have been tried, every node
is done.
-/
import PackageAudit.Proofs.Graph.Moves

namespace PackageAudit

namespace Search

variable {graph : Graph} {s : Search} {path rest : List (Nat × Nat)} {node child edge u v w : Nat}

/-! ### Looking at the successors of a node -/

theorem Invariant.scan {result : Search} {found : Option (Nat × Nat)} {children : List Nat}
    (h : Invariant graph s ((node, edge) :: rest))
    (hchildren : (graph.next node).drop edge = children)
    (hscan : Search.scan node edge children s = (result, found)) :
    (found = none ∧ ∃ e, (graph.next node).length ≤ e
        ∧ Invariant graph result ((node, e) :: rest))
    ∨ (∃ child k, found = some (child, k + 1) ∧ (graph.next node)[k]? = some child
        ∧ ¬ result.Met child ∧ Invariant graph result ((node, k) :: rest)) := by
  induction children generalizing edge s with
  | nil =>
      obtain ⟨rfl, rfl⟩ := Prod.mk.inj hscan
      exact Or.inl ⟨rfl, edge, List.drop_eq_nil_iff.mp hchildren, h⟩
  | cons child children ih =>
      have hchild : (graph.next node)[edge]? = some child := by
        rw [← List.head?_drop, hchildren, List.head?_cons]
      have hdrop : (graph.next node).drop (edge + 1) = children := by
        rw [← List.tail_drop, hchildren, List.tail_cons]
      unfold Search.scan at hscan
      cases hnumber : s.number? child with
      | none =>
          rw [hnumber] at hscan
          obtain ⟨rfl, rfl⟩ := Prod.mk.inj hscan
          exact Or.inr ⟨child, edge, rfl, hchild, fun hc => hc hnumber, h⟩
      | some number =>
          rw [hnumber] at hscan
          exact ih (h.look hchild hnumber) hdrop hscan

/-! ### A step -/

/-- The search when it has come to its next place. -/
def arrived (graph : Graph) (s : Search) : Search :=
  match s.work with
  | [] => s
  | (node, edge) :: work => enter graph { s with work } node edge

/-- The search can go on. -/
def Ready (graph : Graph) (s : Search) : Prop := Invariant graph (arrived graph s) s.work

/-- How many nodes have not been met. -/
def unmet (graph : Graph) (s : Search) : Nat :=
  ((Finset.range graph.size).filter fun v => s.number? v = none).card

/-- Twice the number of nodes that have not been met, plus the number of places to go on from. -/
def remaining (graph : Graph) (s : Search) : Nat :=
  2 * unmet graph (arrived graph s) + s.work.length

theorem unmet_meet (hs : Sized graph.size s) (hlt : child < graph.size) (hnew : ¬ s.Met child) :
    unmet graph (s.meet child) + 1 = unmet graph s := by
  have hmem : child ∈ (Finset.range graph.size).filter fun v => s.number? v = none := by
    rw [Finset.mem_filter, Finset.mem_range]
    exact ⟨hlt, not_not.mp hnew⟩
  have heq : ((Finset.range graph.size).filter fun v => (s.meet child).number? v = none)
      = ((Finset.range graph.size).filter fun v => s.number? v = none).erase child := by
    ext v
    rw [Finset.mem_erase, Finset.mem_filter, Finset.mem_filter, number?_meet hs hlt]
    by_cases hv : v = child
    · simp [hv]
    · simp [hv]
  unfold unmet
  rw [heq]
  exact Finset.card_erase_add_one hmem

theorem unmet_le (graph : Graph) (s : Search) : unmet graph s ≤ graph.size := by
  have h := Finset.card_filter_le (Finset.range graph.size) fun v => s.number? v = none
  rwa [Finset.card_range] at h

theorem lowerBy_numbers (s : Search) (node child bound : Nat) :
    (s.lowerBy node child bound).numbers = s.numbers := by
  unfold lowerBy
  split <;> rfl

/-- Going down to a node that has not been met. -/
theorem Invariant.down (h : Invariant graph s ((node, edge) :: rest)) (hrange : graph.InRange)
    (hchild : (graph.next node)[edge]? = some child) (hnew : ¬ s.Met child) :
    Invariant graph (s.meet child) ((child, 0) :: (node, edge + 1) :: rest) := by
  have hmem : child ∈ graph.next node := List.mem_of_getElem? hchild
  have hnode : node ∈ s.stack := h.onPath.stacked (node, edge) List.mem_cons_self
  refine h.meet hnew (hrange node child hmem) rfl ?_ ?_ ?_
  · intro u v hex
    exact (hex.of_succ hchild).imp_right And.right
  · intro place hp
    have hle : s.num place.1 ≤ s.num node := by
      rcases List.mem_cons.mp hp with rfl | hp
      · exact Nat.le_refl _
      · exact Nat.le_of_lt (h.onPath.num_lt place hp)
    exact (h.onPath.reach place hp node hnode hle).trans (Graph.Reach.edge hmem)
  · exact List.isChain_cons_cons.mpr ⟨⟨edge, rfl, hchild⟩, isChain_move h.onPath.chain _⟩

/-- What going on at the last node of the path leads to. -/
structure Progress (graph : Graph) (s : Search) (places : Nat) (result : Search) : Prop where
  ready : Ready graph result
  remaining_le : remaining graph result ≤ 2 * unmet graph s + places
  met : ∀ v, s.Met v → (arrived graph result).Met v

/-- A search that differs in its places and low numbers only has met the same nodes. -/
theorem Progress.of_numbers {places : Nat} {result : Search} (hready : Ready graph result)
    (hnumbers : (arrived graph result).numbers = s.numbers) (hwork : result.work.length = places) :
    Progress graph s places result := by
  have hnum : ∀ v, (arrived graph result).number? v = s.number? v := by
    intro v
    unfold number?
    rw [hnumbers]
  refine ⟨hready, ?_, ?_⟩
  · unfold remaining unmet
    simp only [hnum, hwork]
    exact Nat.le_refl _
  · intro v hv
    unfold Met
    rw [hnum]
    exact hv

/-- Coming back from a node, the search takes over its low number. -/
theorem enter_back {last : Nat × Nat} (h : LeadsTo graph (node, edge) last) (s : Search) :
    enter graph s last.1 last.2 = s.lowerBy last.1 node (s.low node) := by
  obtain ⟨k, hk, hchild⟩ := h
  have hget : (graph.next last.1).getD k last.1 = node := by
    rw [List.getD_eq_getElem?_getD, hchild]
    rfl
  rw [hk]
  show s.lowerBy last.1 ((graph.next last.1).getD k last.1) (s.low _) = _
  rw [hget]

/-- The search can go on where it was before it went down to a node that it leaves. -/
theorem ready_back (hchain : ((node, edge) :: rest).IsChain (LeadsTo graph)) (hwork : s.work = rest)
    (hnil : rest = [] → Invariant graph s [])
    (hcons : ∀ last ∈ rest.head?, Invariant graph (s.lowerBy last.1 node (s.low node)) rest) :
    Ready graph s ∧ (arrived graph s).numbers = s.numbers := by
  unfold Ready arrived
  rw [hwork]
  cases rest with
  | nil => exact ⟨hnil rfl, rfl⟩
  | cons last rest =>
      obtain ⟨hleads, -⟩ := List.isChain_cons_cons.mp hchain
      show Invariant graph (enter graph { s with work := rest } last.1 last.2) _
        ∧ (enter graph { s with work := rest } last.1 last.2).numbers = s.numbers
      rw [enter_back hleads]
      refine ⟨?_, lowerBy_numbers _ _ _ _⟩
      have hinv := (hcons last rfl).withWork rest
      unfold lowerBy at hinv ⊢
      split at hinv <;> rename_i hst
      · rw [if_pos (show isStacked { s with work := rest } node = true from hst)]
        exact hinv
      · rw [if_neg (show ¬ isStacked { s with work := rest } node = true from hst)]
        exact hinv

/-- Going on at the last node of the path, the search comes to another place or to its end. -/
theorem Invariant.leave (h : Invariant graph s ((node, edge) :: rest)) (hrange : graph.InRange)
    (hwork : s.work = rest) : Progress graph s rest.length (Search.leave graph s node edge) := by
  obtain ⟨⟨result, found⟩, hscan⟩ :
      ∃ r, Search.scan node edge ((graph.next node).drop edge) s = r := ⟨_, rfl⟩
  obtain ⟨hkwork, hknumbers⟩ := scan_keeps node edge ((graph.next node).drop edge) s
  rw [hscan] at hkwork hknumbers
  have hkw : result.work = rest := hkwork.trans hwork
  unfold Search.leave
  rw [hscan]
  rcases h.scan rfl hscan with ⟨rfl, e, hlen, hr⟩ | ⟨child, k, rfl, hchild, hnew, hr⟩
  · have hnode : node ∈ result.stack := hr.onPath.stacked (node, e) List.mem_cons_self
    have hmet : result.Met node := hr.stack.met node hnode
    by_cases hlow : result.number? node = some (result.low node)
    · -- The node is the first of its part, which the search takes off the stack.
      obtain ⟨hc, hoff⟩ := hr.complete hlen (num_of_number? hlow).symm
      have hready := ready_back hr.onPath.chain (s := result.complete node) hkw
        (fun hnil => hnil ▸ hc) (fun last _ => by
          unfold lowerBy
          rw [if_neg (by rw [hoff]; exact Bool.false_ne_true)]
          exact hc)
      simp only [hlow, if_true]
      exact Progress.of_numbers hready.1 (hready.2.trans hknumbers) (congrArg List.length hkw)
    · -- The node stays on the stack, and its low number is smaller than its own.
      have hlt : result.low node < result.num node := by
        refine Nat.lt_of_le_of_ne (hr.low.le_num node hnode) fun hc => hlow ?_
        rw [hc]
        exact number?_of_met hmet
      have hready := ready_back hr.onPath.chain hkw
        (fun hnil => hnil ▸ hr.pop hlen hlt (by rw [hnil]; simp)) (fun last hlast => by
          cases rest with
          | nil => simp at hlast
          | cons place rest =>
              obtain rfl : place = last := by simpa using hlast
              unfold lowerBy
              rw [if_pos ((hr.stack.isStacked_iff node).mpr hnode)]
              exact hr.back hlen hlt)
      simp only [hlow, if_false]
      exact Progress.of_numbers hready.1 (hready.2.trans hknumbers) (congrArg List.length hkw)
  · have hlt : child < graph.size := hrange node child (List.mem_of_getElem? hchild)
    have hdown := (hr.withWork ((node, k + 1) :: rest)).down hrange hchild hnew
    have hunmet := unmet_meet hr.stack.sized hlt hnew
    have hsame : unmet graph result = unmet graph s := by
      unfold unmet number?
      rw [hknumbers]
    simp only [hkw]
    refine ⟨hdown, ?_, ?_⟩
    · show 2 * unmet graph (result.meet child) + (rest.length + 2) ≤ _
      omega
    · intro v hv
      refine (met_meet hr.stack.sized hlt).mpr (Or.inr ?_)
      unfold Met number? at hv ⊢
      rw [hknumbers]
      exact hv

/-- A step keeps the search ready and brings it closer to its end. -/
theorem Ready.step (h : Ready graph s) (hrange : graph.InRange) (hwork : s.work ≠ []) :
    Ready graph (Search.step graph s) ∧ remaining graph (Search.step graph s) < remaining graph s
      ∧ ∀ v, (arrived graph s).Met v → (arrived graph (Search.step graph s)).Met v := by
  unfold Ready remaining at *
  cases hw : s.work with
  | nil => exact absurd hw hwork
  | cons place rest =>
      obtain ⟨node, edge⟩ := place
      have harrived : arrived graph s = enter graph { s with work := rest } node edge := by
        unfold arrived
        rw [hw]
      have hstep : Search.step graph s = Search.leave graph (arrived graph s) node edge := by
        rw [harrived]
        unfold Search.step
        rw [hw]
      have henter : (arrived graph s).work = rest := by
        rw [harrived]
        cases edge with
        | zero => rfl
        | succ k =>
            show (lowerBy _ _ _ _).work = rest
            unfold lowerBy
            split <;> rfl
      rw [hw] at h
      have hprogress := h.leave hrange henter
      rw [hstep]
      refine ⟨hprogress.ready, ?_, hprogress.met⟩
      have hle := hprogress.remaining_le
      unfold remaining at hle
      rw [List.length_cons]
      omega

/-! ### A whole run -/

/-- With enough fuel a search ends, and has met what it had met. -/
theorem Ready.run (hrange : graph.InRange) :
    ∀ (fuel : Nat) (s : Search), Ready graph s → remaining graph s ≤ fuel →
      Invariant graph (Search.run graph fuel s) []
        ∧ ∀ v, (arrived graph s).Met v → (Search.run graph fuel s).Met v := by
  have hend : ∀ s, Ready graph s → s.work = [] →
      Invariant graph s [] ∧ ∀ v, (arrived graph s).Met v → s.Met v := by
    intro s h hwork
    unfold Ready arrived at *
    rw [hwork] at h ⊢
    exact ⟨h, fun v hv => hv⟩
  intro fuel
  induction fuel with
  | zero =>
      intro s h hle
      refine hend s h (List.eq_nil_of_length_eq_zero ?_)
      unfold remaining at hle
      omega
  | succ fuel ih =>
      intro s h hle
      unfold Search.run
      split
      · rename_i hwork
        exact hend s h hwork
      · rename_i hwork
        obtain ⟨hready, hlt, hmet⟩ := h.step hrange hwork
        obtain ⟨hinv, hmet'⟩ := ih _ hready (by omega)
        exact ⟨hinv, fun v hv => hmet' v (hmet v hv)⟩

/-- A search can start from a node that has not been met, and has enough fuel for it. -/
theorem Invariant.ready_root (h : Invariant graph s []) {root : Nat} (hroot : root < graph.size)
    (hnumber : s.number? root = none) :
    Ready graph { s with work := [(root, 0)] }
      ∧ remaining graph { s with work := [(root, 0)] } ≤ 2 * graph.size := by
  have hnew : ¬ s.Met root := fun hc => hc hnumber
  refine ⟨(h.withWork []).meet hnew hroot rfl (fun u v hex => Or.inl hex) (by simp)
    (List.IsChain.singleton _), ?_⟩
  have hunmet := unmet_meet h.stack.sized hroot hnew
  have hle := unmet_le graph s
  show 2 * unmet graph (s.meet root) + 1 ≤ _
  omega

/-- Searching from a root, the root is met. -/
theorem Invariant.explore (h : Invariant graph s []) (hrange : graph.InRange) {root : Nat}
    (hroot : root < graph.size) :
    Invariant graph (Search.explore graph s root) []
      ∧ ∀ v, v = root ∨ s.Met v → (Search.explore graph s root).Met v := by
  unfold Search.explore
  cases hnumber : s.number? root with
  | some number =>
      refine ⟨h, ?_⟩
      intro v hor
      rcases hor with rfl | hv
      · exact met_of_number? hnumber
      · exact hv
  | none =>
      obtain ⟨hready, hle⟩ := h.ready_root hroot hnumber
      obtain ⟨hinv, hmet⟩ := Ready.run hrange _ _ hready hle
      exact ⟨hinv, fun v hv => hmet v ((met_meet h.stack.sized hroot).mpr hv)⟩

theorem Invariant.exploreAll (hrange : graph.InRange) :
    ∀ (roots : List Nat) (s : Search), (∀ root ∈ roots, root < graph.size) → Invariant graph s [] →
      Invariant graph (roots.foldl (Search.explore graph) s) []
        ∧ ∀ v, v ∈ roots ∨ s.Met v → (roots.foldl (Search.explore graph) s).Met v := by
  intro roots
  induction roots with
  | nil =>
      intro s _ h
      exact ⟨h, fun v hv => hv.resolve_left List.not_mem_nil⟩
  | cons root roots ih =>
      intro s hroots h
      obtain ⟨hinv, hmet⟩ := h.explore hrange (hroots root List.mem_cons_self)
      obtain ⟨hinv', hmet'⟩ := ih _ (fun r hr => hroots r (List.mem_cons_of_mem _ hr)) hinv
      refine ⟨hinv', ?_⟩
      intro v hor
      rcases hor with hv | hv
      · rcases List.mem_cons.mp hv with rfl | hv
        · exact hmet' v (Or.inr (hmet v (Or.inl rfl)))
        · exact hmet' v (Or.inl hv)
      · exact hmet' v (Or.inr (hmet v (Or.inr hv)))

theorem invariant_start (graph : Graph) : Invariant graph (start graph.size) [] := by
  have hnumber : ∀ v, (start graph.size).number? v = none := by
    intro v
    unfold number? start
    rw [Array.getD_eq_getD_getElem?, Array.getElem?_replicate]
    split <;> rfl
  have hmet : ∀ v, ¬ (start graph.size).Met v := fun v hv => hv (hnumber v)
  have hdone : ∀ v, ¬ (start graph.size).Done v := fun v hv => hmet v hv.1
  refine ⟨⟨⟨by simp [start], by simp [start], by simp [start]⟩, ?_, ?_, ?_, ?_, List.Pairwise.nil⟩,
    ⟨by simp, List.Pairwise.nil, List.IsChain.nil, by simp, ?_⟩, ⟨?_, ?_, ?_, by simp⟩,
    ⟨?_, ?_, ?_, List.Pairwise.nil, ?_⟩⟩
  · exact fun v hv => absurd hv (hmet v)
  · exact fun u v hu => absurd hu (hmet u)
  · intro v
    unfold isStacked start
    rw [Array.getD_eq_getD_getElem?, Array.getElem?_replicate]
    split <;> simp
  · exact fun v hv => absurd hv List.not_mem_nil
  · exact fun u v hu => absurd hu (hmet u)
  · exact fun v hv => absurd hv List.not_mem_nil
  · exact fun v hv => absurd hv List.not_mem_nil
  · exact fun v hv => absurd hv List.not_mem_nil
  · exact fun u hu => absurd hu (hdone u)
  · exact fun part hp => absurd hp List.not_mem_nil
  · exact fun part hp => absurd hp List.not_mem_nil
  · exact fun u v hu => absurd hu (hdone u)

end Search

namespace Graph

variable {graph : Graph}

/-- When the search is over, all nodes are done. -/
theorem exists_search (hrange : graph.InRange) :
    ∃ s : Search, graph.components = s.parts ∧ Search.Invariant graph s []
      ∧ ∀ v < graph.size, s.Done v := by
  have hroots : ∀ root ∈ List.range graph.size, root < graph.size :=
    fun root hr => List.mem_range.mp hr
  obtain ⟨hinv, hmet⟩ := Search.Invariant.exploreAll hrange (List.range graph.size) _ hroots
    (Search.invariant_start graph)
  refine ⟨_, rfl, hinv, fun v hv => ⟨hmet v (Or.inl (List.mem_range.mpr hv)), ?_⟩⟩
  rw [hinv.stack_eq_nil]
  exact List.not_mem_nil

/-- What the search finds are parts. -/
theorem isPart_of_mem_components (hrange : graph.InRange) {part : List Nat}
    (h : part ∈ graph.components) : Search.IsPart graph part ∧ ∀ v ∈ part, v < graph.size := by
  obtain ⟨s, heq, hinv, -⟩ := exists_search hrange
  rw [heq] at h
  exact ⟨hinv.parts.isPart part h, fun v hv =>
    Search.lt_size_of_met hinv.stack.sized (hinv.parts.done part h v hv).1⟩

/-- A node is in one of the parts that the search finds if it belongs together with another. -/
theorem exists_component (hrange : graph.InRange) {u v : Nat} (hu : u < graph.size) (hne : u ≠ v)
    (h : graph.Mutual u v) : ∃ part ∈ graph.components, u ∈ part := by
  obtain ⟨s, heq, hinv, hdone⟩ := exists_search hrange
  rw [heq]
  exact hinv.parts.covered u v (hdone u hu) hne h

theorem components_disjoint (hrange : graph.InRange) :
    graph.components.Pairwise fun p q => ∀ v ∈ p, v ∉ q := by
  obtain ⟨s, heq, hinv, -⟩ := exists_search hrange
  rw [heq]
  exact hinv.parts.disjoint

end Graph

end PackageAudit
