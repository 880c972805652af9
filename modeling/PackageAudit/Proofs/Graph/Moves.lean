/-
The moves of the depth-first search keep its invariant.

Besides meeting a node there are four: a low number is lowered, an edge is taken as looked at,
the last node of the path is left although it stays on the stack, and it is left together with
its part.  The last one is where the search finds something, and the invariant is what makes
the find a part: no edge leads from the stack above the node to the stack below it.
-/
import PackageAudit.Proofs.Graph.Invariant

namespace PackageAudit.Search

variable {graph : Graph} {s : Search} {path rest : List (Nat × Nat)} {node child edge u v w : Nat}

/-! ### Lowering a low number -/

/-- The low number of a node of the path may be lowered to the number of a node on the stack that it
reaches. -/
theorem Invariant.lower (h : Invariant graph s path) {place : Nat × Nat} (hp : place ∈ path)
    (hw : w ∈ s.stack) (hreach : graph.Reach place.1 w) :
    Invariant graph (s.lower place.1 (s.num w)) path := by
  have hsized := h.stack.sized
  have hplace := h.onPath.stacked place hp
  have hlt : place.1 < graph.size := lt_size_of_met hsized (h.stack.met _ hplace)
  refine ⟨⟨sized_lower hsized, h.stack.num_lt, h.stack.num_inj, h.stack.isStacked_iff, h.stack.met,
    h.stack.descending⟩, ⟨h.onPath.stacked, h.onPath.descending, h.onPath.chain, h.onPath.reach,
    h.onPath.examined⟩, ⟨?_, ?_, ?_, ?_⟩, ⟨h.parts.closed, h.parts.isPart, h.parts.done,
    h.parts.disjoint, h.parts.covered⟩⟩
  · intro v hv
    exact Nat.le_trans (low_lower_le hsized hlt v) (h.low.le_num v hv)
  · intro v hv
    rw [low_lower hsized hlt]
    by_cases hvp : v = place.1
    · rw [if_pos hvp]
      rcases Nat.le_total (s.low place.1) (s.num w) with hle | hle
      · obtain ⟨x, hx, hxlow, hxreach⟩ := h.low.reached v hv
        refine ⟨x, hx, ?_, hxreach⟩
        rw [Nat.min_eq_left hle, ← hvp, ← hxlow]
        rfl
      · refine ⟨w, hw, ?_, hvp ▸ hreach⟩
        rw [Nat.min_eq_right hle]
        rfl
    · rw [if_neg hvp]
      exact h.low.reached v hv
  · intro v hv hoff
    have hne : v ≠ place.1 := by
      intro heq
      obtain rfl := heq
      exact hoff place.2 hp
    rw [low_lower hsized hlt, if_neg hne]
    exact h.low.lt_num v hv hoff
  · intro p hp' u hu hle v hv hex
    obtain ⟨q, hq, hpq, hqv⟩ := h.low.known p hp' u hu hle v hv hex
    exact ⟨q, hq, hpq, Nat.le_trans (low_lower_le hsized hlt q.1) hqv⟩

/-! ### Looking at an edge -/

/-- One position further, one more edge of the node has been looked at. -/
theorem Examined.of_succ (hchild : (graph.next node)[edge]? = some child)
    (h : Examined graph ((node, edge + 1) :: rest) u v) :
    Examined graph ((node, edge) :: rest) u v ∨ (u = node ∧ v = child) := by
  by_cases hu : u = node
  · subst hu
    have hv := h.2 (edge + 1) List.mem_cons_self
    rw [List.take_add_one, hchild, Option.toList_some, List.mem_append, List.mem_singleton] at hv
    rcases hv with hv | hv
    · refine Or.inl ⟨h.1, fun e he => ?_⟩
      rcases List.mem_cons.mp he with heq | he
      · rw [(Prod.mk.inj heq).2]
        exact hv
      · exact h.2 e (List.mem_cons_of_mem _ he)
    · exact Or.inr ⟨rfl, hv⟩
  · refine Or.inl ⟨h.1, fun e he => ?_⟩
    rcases List.mem_cons.mp he with heq | he
    · exact absurd (Prod.mk.inj heq).1 hu
    · exact h.2 e (List.mem_cons_of_mem _ he)

/-- A path stays one if the search goes on elsewhere from its last node. -/
theorem isChain_move (h : ((node, edge) :: rest).IsChain (LeadsTo graph)) (edge' : Nat) :
    ((node, edge') :: rest).IsChain (LeadsTo graph) := by
  cases rest with
  | nil => exact List.IsChain.singleton _
  | cons p rest =>
      obtain ⟨hlast, htail⟩ := List.isChain_cons_cons.mp h
      exact List.isChain_cons_cons.mpr ⟨hlast, htail⟩

theorem Invariant.extend (h : Invariant graph s ((node, edge) :: rest))
    (hchild : (graph.next node)[edge]? = some child) (hmet : s.Met child)
    (hlow : child ∈ s.stack → s.low node ≤ s.num child) :
    Invariant graph s ((node, edge + 1) :: rest) := by
  have hnodes : ((node, edge + 1) :: rest).map Prod.fst = ((node, edge) :: rest).map Prod.fst :=
    rfl
  refine ⟨h.stack, ⟨?_, ?_, ?_, ?_, ?_⟩, ⟨h.low.le_num, h.low.reached, ?_, ?_⟩, h.parts⟩
  · intro place hp
    obtain ⟨p, hp, heq⟩ := exists_place hnodes hp
    exact heq ▸ h.onPath.stacked p hp
  · obtain ⟨hhead, htail⟩ := List.pairwise_cons.mp h.onPath.descending
    exact List.pairwise_cons.mpr ⟨hhead, htail⟩
  · exact isChain_move h.onPath.chain _
  · intro place hp
    obtain ⟨p, hp, heq⟩ := exists_place hnodes hp
    exact heq ▸ h.onPath.reach p hp
  · intro u v hu hex
    rcases hex.of_succ hchild with hex | ⟨-, rfl⟩
    · exact h.onPath.examined u v hu hex
    · exact hmet
  · intro v hv hoff
    refine h.low.lt_num v hv fun e he => ?_
    obtain ⟨⟨x, e'⟩, hp, rfl⟩ := exists_place hnodes.symm he
    exact hoff e' hp
  · intro place hp u hu hle v hv hex
    obtain ⟨p, hp', heq⟩ := exists_place hnodes hp
    rcases hex.of_succ hchild with hex | ⟨rfl, rfl⟩
    · rw [← heq] at hle ⊢
      obtain ⟨q, hq, hpq, hqv⟩ := h.low.known p hp' u hu hle v hv hex
      obtain ⟨q', hq', hqeq⟩ := exists_place hnodes.symm hq
      exact ⟨q', hq', hqeq ▸ hpq, hqeq ▸ hqv⟩
    · exact ⟨(u, edge + 1), List.mem_cons_self, hle, hlow hv⟩

/-- Looking at an edge to a node that has been met. -/
theorem Invariant.look {number : Nat} (h : Invariant graph s ((node, edge) :: rest))
    (hchild : (graph.next node)[edge]? = some child) (hnumber : s.number? child = some number) :
    Invariant graph (s.lowerBy node child number) ((node, edge + 1) :: rest) := by
  have hmet : s.Met child := met_of_number? hnumber
  have hnode : node ∈ s.stack := h.onPath.stacked (node, edge) List.mem_cons_self
  have hlt : node < graph.size := lt_size_of_met h.stack.sized (h.stack.met node hnode)
  unfold lowerBy
  by_cases hst : s.isStacked child = true
  · rw [if_pos hst, ← num_of_number? hnumber]
    have hmem : child ∈ graph.next node := List.mem_of_getElem? hchild
    have hlow := h.lower List.mem_cons_self ((h.stack.isStacked_iff child).mp hst)
      (Graph.Reach.edge hmem)
    refine hlow.extend hchild hmet fun _ => ?_
    rw [low_lower h.stack.sized hlt, if_pos rfl]
    exact Nat.min_le_right _ _
  · rw [if_neg hst]
    exact h.extend hchild hmet fun hc => absurd ((h.stack.isStacked_iff child).mpr hc) hst

/-! ### Leaving the last node of the path -/

/-- All edges of a node are looked at when the search leaves it. -/
theorem Examined.of_tail (hedge : (graph.next node).length ≤ edge) (h : Examined graph rest u v) :
    Examined graph ((node, edge) :: rest) u v := by
  refine ⟨h.1, fun e he => ?_⟩
  rcases List.mem_cons.mp he with heq | he
  · obtain ⟨rfl, rfl⟩ := Prod.mk.inj heq
    rw [List.take_of_length_le hedge]
    exact h.1
  · exact h.2 e he

/-- A node that stays on the stack can be left if the one that the search goes back to knows of its
low number. -/
theorem Invariant.pop (h : Invariant graph s ((node, edge) :: rest))
    (hedge : (graph.next node).length ≤ edge) (hlow : s.low node < s.num node)
    (hback : ∀ place ∈ rest.head?, s.low place.1 ≤ s.low node) : Invariant graph s rest := by
  refine ⟨h.stack, ⟨?_, ?_, ?_, ?_, ?_⟩, ⟨h.low.le_num, h.low.reached, ?_, ?_⟩, h.parts⟩
  · exact fun place hp => h.onPath.stacked place (List.mem_cons_of_mem _ hp)
  · exact (List.pairwise_cons.mp h.onPath.descending).2
  · exact h.onPath.chain.of_cons
  · exact fun place hp => h.onPath.reach place (List.mem_cons_of_mem _ hp)
  · exact fun u v hu hex => h.onPath.examined u v hu (hex.of_tail hedge)
  · intro v hv hoff
    by_cases hvn : v = node
    · rw [hvn]
      exact hlow
    · refine h.low.lt_num v hv fun e he => ?_
      rcases List.mem_cons.mp he with heq | he
      · exact hvn (Prod.mk.inj heq).1
      · exact hoff e he
  · intro place hp u hu hle v hv hex
    obtain ⟨q, hq, hpq, hqv⟩ := h.low.known place (List.mem_cons_of_mem _ hp) u hu hle v hv
      (hex.of_tail hedge)
    rcases List.mem_cons.mp hq with rfl | hq
    · -- What the node knew is known to the one before it, which is the last one now.
      cases rest with
      | nil => exact absurd hp List.not_mem_nil
      | cons last rest =>
          refine ⟨last, List.mem_cons_self, ?_, Nat.le_trans (hback last rfl) hqv⟩
          rcases List.mem_cons.mp hp with rfl | hp
          · exact Nat.le_refl _
          · exact Nat.le_of_lt ((List.pairwise_cons.mp
              (List.pairwise_cons.mp h.onPath.descending).2).1 place hp)
    · exact ⟨q, hq, hpq, hqv⟩

/-- Going back from a node that stays on the stack: its low number is taken over. -/
theorem Invariant.back {last : Nat × Nat} (h : Invariant graph s ((node, edge) :: last :: rest))
    (hedge : (graph.next node).length ≤ edge) (hlow : s.low node < s.num node) :
    Invariant graph (s.lower last.1 (s.low node)) (last :: rest) := by
  have hnode : node ∈ s.stack := h.onPath.stacked (node, edge) List.mem_cons_self
  have hlast : last ∈ (node, edge) :: last :: rest := List.mem_cons_of_mem _ List.mem_cons_self
  have hlt : last.1 < graph.size :=
    lt_size_of_met h.stack.sized (h.stack.met _ (h.onPath.stacked last hlast))
  have hnum : s.num last.1 < s.num node := h.onPath.num_lt last List.mem_cons_self
  obtain ⟨w, hw, hwlow, hreach⟩ := h.low.reached node hnode
  have hto : graph.Reach last.1 w :=
    (h.onPath.reach last hlast node hnode (Nat.le_of_lt hnum)).trans hreach
  have hne : node ≠ last.1 := fun hc => by
    rw [← hc] at hnum
    exact Nat.lt_irrefl _ hnum
  have hsame : (s.lower last.1 (s.low node)).low node = s.low node := by
    rw [low_lower h.stack.sized hlt, if_neg hne]
  have hlowered := h.lower hlast hw hto
  rw [hwlow] at hlowered
  refine hlowered.pop hedge ?_ ?_
  · rw [hsame]
    exact hlow
  · intro place hp
    obtain rfl : last = place := by simpa using hp
    rw [hsame, low_lower h.stack.sized hlt, if_pos rfl]
    exact Nat.min_le_right _ _

/-! ### Leaving the first node of a part -/

section Complete

variable {above below : List Nat}

theorem Stacked.mem_above (h : Stacked graph s) (hstack : s.stack = above ++ node :: below) :
    v ∈ above ++ [node] ↔ v ∈ s.stack ∧ s.num node ≤ s.num v := by
  have hdesc := h.descending
  rw [hstack, List.pairwise_append] at hdesc
  obtain ⟨-, hlow, hcross⟩ := hdesc
  rw [hstack]
  refine ⟨?_, ?_⟩
  · intro hv
    rcases List.mem_append.mp hv with hv | hv
    · exact ⟨by simp [hv], Nat.le_of_lt (hcross v hv node List.mem_cons_self)⟩
    · obtain rfl := List.mem_singleton.mp hv
      exact ⟨by simp, Nat.le_refl _⟩
  · rintro ⟨hv, hle⟩
    rcases List.mem_append.mp hv with hv | hv
    · exact List.mem_append_left _ hv
    · rcases List.mem_cons.mp hv with rfl | hv
      · exact List.mem_append_right _ List.mem_cons_self
      · exact absurd ((List.pairwise_cons.mp hlow).1 v hv) (by omega)

theorem Stacked.mem_below (h : Stacked graph s) (hstack : s.stack = above ++ node :: below) :
    v ∈ below ↔ v ∈ s.stack ∧ s.num v < s.num node := by
  have hdesc := h.descending
  rw [hstack, List.pairwise_append] at hdesc
  refine ⟨?_, ?_⟩
  · intro hv
    exact ⟨by simp [hstack, hv], (List.pairwise_cons.mp hdesc.2.1).1 v hv⟩
  · rintro ⟨hv, hlt⟩
    have hnot : v ∉ above ++ [node] := fun hc => by
      have := ((h.mem_above hstack).mp hc).2
      omega
    rw [hstack, List.append_cons] at hv
    exact (List.mem_append.mp hv).resolve_left hnot

/-- No edge leads from the stack above the node to the stack below it. -/
theorem Invariant.above_closed (h : Invariant graph s ((node, edge) :: rest))
    (hedge : (graph.next node).length ≤ edge) (hlow : s.low node = s.num node) :
    ∀ u, (u ∈ s.stack ∧ s.num node ≤ s.num u) ∨ s.Done u →
      ∀ v ∈ graph.next u, (v ∈ s.stack ∧ s.num node ≤ s.num v) ∨ s.Done v := by
  intro u hu v hv
  rcases hu with ⟨hu, hle⟩ | hu
  · have hex : Examined graph ((node, edge) :: rest) u v := by
      refine Examined.of_tail hedge ⟨hv, fun e he => ?_⟩
      exact absurd (h.onPath.num_lt (u, e) he) (Nat.not_lt.mpr hle)
    have hmet : s.Met v := h.onPath.examined u v (h.stack.met u hu) hex
    by_cases hst : v ∈ s.stack
    · refine Or.inl ⟨hst, ?_⟩
      obtain ⟨q, hq, hnq, hqv⟩ := h.low.known (node, edge) List.mem_cons_self u hu hle v hst hex
      rcases List.mem_cons.mp hq with rfl | hq
      · rw [← hlow]
        exact hqv
      · exact absurd (h.onPath.num_lt q hq) (Nat.not_lt.mpr hnq)
    · exact Or.inr ⟨hmet, hst⟩
  · exact Or.inr (h.parts.closed u hu v hv)

/-- What stands above the node reaches it.  The induction is on the number: each other node reaches
one with a smaller number, and that is above the node as well. -/
theorem Invariant.above_reach (h : Invariant graph s ((node, edge) :: rest))
    (hedge : (graph.next node).length ≤ edge) (hlow : s.low node = s.num node) :
    ∀ n, ∀ u ∈ s.stack, s.num node ≤ s.num u → s.num u = n → graph.Reach u node := by
  intro n
  induction n using Nat.strong_induction_on with
  | _ n ih =>
      intro u hu hle hn
      by_cases hun : u = node
      · rw [hun]
        exact Graph.Reach.refl node
      have hoff : ∀ e, (u, e) ∉ (node, edge) :: rest := by
        intro e he
        rcases List.mem_cons.mp he with heq | he
        · exact hun (Prod.mk.inj heq).1
        · exact absurd (h.onPath.num_lt (u, e) he) (Nat.not_lt.mpr hle)
      have hlt := h.low.lt_num u hu hoff
      obtain ⟨w, hw, hwlow, hreach⟩ := h.low.reached u hu
      have hstay := hreach.stays (h.above_closed hedge hlow) (Or.inl ⟨hu, hle⟩)
      have hwle : s.num node ≤ s.num w := by
        rcases hstay with hstay | hdone
        · exact hstay.2
        · exact absurd hw hdone.2
      exact hreach.trans (ih (s.num w) (by omega) w hw hwle rfl)

/-- What stands above the node is what belongs together with any of it. -/
theorem Invariant.above_mutual (h : Invariant graph s ((node, edge) :: rest))
    (hedge : (graph.next node).length ≤ edge) (hlow : s.low node = s.num node)
    (hu : u ∈ s.stack) (hle : s.num node ≤ s.num u) :
    (v ∈ s.stack ∧ s.num node ≤ s.num v) ↔ graph.Mutual u v := by
  have hfrom : ∀ x ∈ s.stack, s.num node ≤ s.num x → graph.Reach node x :=
    h.onPath.reach (node, edge) List.mem_cons_self
  have hto : ∀ x ∈ s.stack, s.num node ≤ s.num x → graph.Reach x node := fun x hx hxle =>
    h.above_reach hedge hlow _ x hx hxle rfl
  refine ⟨?_, ?_⟩
  · rintro ⟨hv, hvle⟩
    exact ⟨(hto u hu hle).trans (hfrom v hv hvle), (hto v hv hvle).trans (hfrom u hu hle)⟩
  · rintro ⟨huv, hvu⟩
    rcases huv.stays (h.above_closed hedge hlow) (Or.inl ⟨hu, hle⟩) with hv | hdone
    · exact hv
    · -- Nothing on the stack can be reached from a node that is done.
      exact absurd hu (hvu.stays h.parts.closed hdone).2

theorem complete_eq (hsplit : splitBehind node s.stack = (above ++ [node], below)) :
    s.complete node = { s with
      stacked := (above ++ [node]).foldl (fun stacked member => stacked.setIfInBounds member false)
        s.stacked
      stack := below
      parts := if (above ++ [node]).length > 1 then s.parts ++ [above ++ [node]] else s.parts } := by
  unfold complete
  rw [hsplit]

theorem Stacked.complete (h : Stacked graph s)
    (hsplit : splitBehind node s.stack = (above ++ [node], below))
    (hstack : s.stack = above ++ node :: below) : Stacked graph (s.complete node) := by
  have hlt : ∀ member ∈ above ++ [node], member < s.stacked.size := by
    intro member hm
    rw [h.sized.stacked]
    exact lt_size_of_met h.sized (h.met member ((h.mem_above hstack).mp hm).1)
  rw [complete_eq hsplit]
  refine ⟨⟨h.sized.numbers, h.sized.lows, ?_⟩, h.num_lt, h.num_inj, ?_, ?_, ?_⟩
  · exact (size_foldl_setIfInBounds _ _).trans h.sized.stacked
  · intro v
    show (Array.getD _ v false = true) ↔ v ∈ below
    rw [getD_foldl_setIfInBounds hlt, h.mem_below hstack, ← h.isStacked_iff]
    by_cases hv : v ∈ above ++ [node]
    · have := ((h.mem_above hstack).mp hv).2
      simp [hv]
      omega
    · rw [if_neg hv]
      refine ⟨fun hst => ⟨hst, ?_⟩, fun hst => hst.1⟩
      have hmem := (h.isStacked_iff v).mp hst
      exact Nat.lt_of_not_le fun hc => hv ((h.mem_above hstack).mpr ⟨hmem, hc⟩)
  · exact fun v hv => h.met v ((h.mem_below hstack).mp hv).1
  · have hdesc := h.descending
    rw [hstack, List.pairwise_append] at hdesc
    exact (List.pairwise_cons.mp hdesc.2.1).2

theorem done_complete (h : Stacked graph s)
    (hsplit : splitBehind node s.stack = (above ++ [node], below))
    (hstack : s.stack = above ++ node :: below) :
    (s.complete node).Done v ↔ s.Done v ∨ v ∈ above ++ [node] := by
  rw [complete_eq hsplit]
  show s.Met v ∧ v ∉ below ↔ _
  rw [h.mem_below hstack, h.mem_above hstack]
  refine ⟨?_, ?_⟩
  · rintro ⟨hmet, hnot⟩
    by_cases hst : v ∈ s.stack
    · exact Or.inr ⟨hst, Nat.le_of_not_lt fun hc => hnot ⟨hst, hc⟩⟩
    · exact Or.inl ⟨hmet, hst⟩
  · intro hor
    rcases hor with ⟨hmet, hnot⟩ | ⟨hst, hle⟩
    · exact ⟨hmet, fun hc => hnot hc.1⟩
    · exact ⟨h.met v hst, fun hc => Nat.not_lt.mpr hle hc.2⟩

theorem Parts.complete (h : Invariant graph s ((node, edge) :: rest))
    (hedge : (graph.next node).length ≤ edge) (hlow : s.low node = s.num node)
    (hsplit : splitBehind node s.stack = (above ++ [node], below))
    (hstack : s.stack = above ++ node :: below) : Parts graph (s.complete node) := by
  have hdone : ∀ v, (s.complete node).Done v ↔ s.Done v ∨ v ∈ above ++ [node] :=
    fun v => done_complete h.stack hsplit hstack
  have hpart : ∀ v, v ∈ above ++ [node] ↔ v ∈ s.stack ∧ s.num node ≤ s.num v :=
    fun v => h.stack.mem_above hstack
  have hmutual : ∀ u ∈ above ++ [node], ∀ v, v ∈ above ++ [node] ↔ graph.Mutual u v := by
    intro u hu v
    obtain ⟨hu, hle⟩ := (hpart u).mp hu
    rw [hpart]
    exact h.above_mutual hedge hlow hu hle
  have hnodup : (above ++ [node]).Nodup := by
    have hnodup := h.stack.nodup
    rw [hstack, List.append_cons] at hnodup
    exact (List.nodup_append.mp hnodup).1
  have hparts : (s.complete node).parts
      = if (above ++ [node]).length > 1 then s.parts ++ [above ++ [node]] else s.parts := by
    rw [complete_eq hsplit]
  have hmem : ∀ part, part ∈ (s.complete node).parts ↔
      part ∈ s.parts ∨ ((above ++ [node]).length > 1 ∧ part = above ++ [node]) := by
    intro part
    rw [hparts]
    split
    · rename_i hlen
      rw [List.mem_append, List.mem_singleton]
      exact or_congr_right (and_iff_right hlen).symm
    · rename_i hlen
      exact (or_iff_left fun hc => hlen hc.1).symm
  refine ⟨?_, ?_, ?_, ?_, ?_⟩
  · intro u hu v hv
    rw [hdone, hpart] at hu ⊢
    exact (h.above_closed hedge hlow u hu.symm v hv).symm
  · intro part hp
    rcases (hmem part).mp hp with hp | ⟨hlen, rfl⟩
    · exact h.parts.isPart part hp
    · exact ⟨hnodup, hlen, hmutual⟩
  · intro part hp v hv
    rw [hdone]
    rcases (hmem part).mp hp with hp | ⟨-, rfl⟩
    · exact Or.inl (h.parts.done part hp v hv)
    · exact Or.inr hv
  · rw [hparts]
    split
    · refine List.pairwise_append.mpr ⟨h.parts.disjoint, List.pairwise_singleton _ _, ?_⟩
      intro p hp q hq v hv hvq
      obtain rfl := List.mem_singleton.mp hq
      exact (h.parts.done p hp v hv).2 ((hpart v).mp hvq).1
    · exact h.parts.disjoint
  · intro u v hu hne hm
    rcases (hdone u).mp hu with hu | hu
    · obtain ⟨part, hp, hup⟩ := h.parts.covered u v hu hne hm
      exact ⟨part, (hmem part).mpr (Or.inl hp), hup⟩
    · refine ⟨_, (hmem _).mpr (Or.inr ⟨?_, rfl⟩), hu⟩
      -- The part holds both nodes, so it has more than one.
      have hv : v ∈ above ++ [node] := (hmutual u hu v).mpr hm
      by_contra hlen
      rw [List.length_append, List.length_singleton] at hlen
      have hnil : above = [] := List.eq_nil_of_length_eq_zero (by omega)
      rw [hnil] at hu hv
      simp only [List.nil_append, List.mem_singleton] at hu hv
      exact hne (hu.trans hv.symm)

theorem Invariant.complete (h : Invariant graph s ((node, edge) :: rest))
    (hedge : (graph.next node).length ≤ edge) (hlow : s.low node = s.num node) :
    Invariant graph (s.complete node) rest ∧ (s.complete node).isStacked node = false := by
  have hnode : node ∈ s.stack := h.onPath.stacked (node, edge) List.mem_cons_self
  obtain ⟨above, below, hsplit, hstack⟩ := splitBehind_append hnode
  have hbelow : ∀ v, v ∈ below ↔ v ∈ s.stack ∧ s.num v < s.num node :=
    fun v => h.stack.mem_below hstack
  have hstacked := h.stack.complete hsplit hstack
  have hst : (s.complete node).stack = below := by rw [complete_eq hsplit]
  have hpath : ∀ place ∈ rest, place.1 ∈ below := fun place hp =>
    (hbelow place.1).mpr ⟨h.onPath.stacked place (List.mem_cons_of_mem _ hp),
      h.onPath.num_lt place hp⟩
  refine ⟨⟨hstacked, ?_, ?_, Parts.complete h hedge hlow hsplit hstack⟩, ?_⟩
  · rw [complete_eq hsplit]
    refine ⟨hpath, (List.pairwise_cons.mp h.onPath.descending).2, h.onPath.chain.of_cons, ?_, ?_⟩
    · exact fun place hp v hv =>
        h.onPath.reach place (List.mem_cons_of_mem _ hp) v ((hbelow v).mp hv).1
    · exact fun u v hu hex => h.onPath.examined u v hu (hex.of_tail hedge)
  · rw [complete_eq hsplit]
    refine ⟨fun v hv => h.low.le_num v ((hbelow v).mp hv).1, ?_, ?_, ?_⟩
    · intro v hv
      obtain ⟨hv, hlt⟩ := (hbelow v).mp hv
      obtain ⟨w, hw, hwlow, hreach⟩ := h.low.reached v hv
      have hle := h.low.le_num v hv
      exact ⟨w, (hbelow w).mpr ⟨hw, by omega⟩, hwlow, hreach⟩
    · intro v hv hoff
      obtain ⟨hv, hlt⟩ := (hbelow v).mp hv
      refine h.low.lt_num v hv fun e he => ?_
      rcases List.mem_cons.mp he with heq | he
      · obtain ⟨rfl, -⟩ := Prod.mk.inj heq
        exact Nat.lt_irrefl _ hlt
      · exact hoff e he
    · intro place hp u hu hle v hv hex
      obtain ⟨hv, hvlt⟩ := (hbelow v).mp hv
      obtain ⟨q, hq, hpq, hqv⟩ := h.low.known place (List.mem_cons_of_mem _ hp) u
        ((hbelow u).mp hu).1 hle v hv (hex.of_tail hedge)
      rcases List.mem_cons.mp hq with rfl | hq
      · exact absurd hqv (by rw [hlow]; exact Nat.not_le.mpr hvlt)
      · exact ⟨q, hq, hpq, hqv⟩
  · rw [← Bool.not_eq_true, hstacked.isStacked_iff, hst, hbelow]
    exact fun hc => Nat.lt_irrefl _ hc.2

end Complete

end PackageAudit.Search
