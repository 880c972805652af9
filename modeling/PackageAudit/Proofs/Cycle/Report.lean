/-
The report on cycles.

The report is made from the strongly connected parts of the graph of a scope: each is written
as a cycle, with its members and the dependencies between them in the order of the names, and
the cycles are sorted by their members.  A declared group takes away the cycles that it holds
all members of, and is reported itself if there are none.
-/
import Mathlib.Data.List.Pairwise
import PackageAudit.Proofs.Cycle.Scope
import PackageAudit.Proofs.Usage

namespace PackageAudit

open Ascending

variable {model : Model} {scope : CycleScope} {allow : Bool}

/-- The members of a cycle, as a set. -/
def Cycle.memberSet (cycle : Cycle) : Set String := {a | a ∈ cycle.members}

/-- Whether the classes that an edge comes with are the ones that bring it about: those of the two
packages, and none between classes. -/
def CycleEdge.HasVias (edge : CycleEdge) (model : Model) : CycleScope → Prop
  | .packages => model.IsViaOf edge.source edge.target edge.vias
  | .classes => edge.vias = []

/-- A cycle that lists its members and exactly the dependencies between them, both in order. -/
structure Cycle.Describes (model : Model) (scope : CycleScope) (allow : Bool) (cycle : Cycle) :
    Prop where
  members_sorted : cycle.members.Pairwise (· < ·)
  mem_edges : ∀ edge, edge ∈ cycle.edges ↔ edge.source ∈ cycle.members ∧ edge.target ∈ cycle.members
    ∧ model.DependsOn scope allow edge.source edge.target ∧ edge.HasVias model scope
  edges_sorted : cycle.edges.Pairwise fun e f =>
    e.source < f.source ∨ e.source = f.source ∧ e.target < f.target
  vias_ne_nil : scope = .packages → ∀ edge ∈ cycle.edges, edge.vias ≠ []

namespace Model

variable {i j : Nat} {a b : String}

/-! ### The edges of a cycle -/

theorem nodeName_lt (h : model.WellFormed) (hij : i < j)
    (hj : j < (model.graph scope allow).size) :
    model.nodeName scope i < model.nodeName scope j := by
  obtain ⟨a, ha⟩ := exists_nodeName (Nat.lt_trans hij hj)
  obtain ⟨b, hb⟩ := exists_nodeName hj
  rw [nodeName_eq ha, nodeName_eq hb]
  exact compare_string_lt.mp ((isAscending_nodeNames h scope).compare_getElem? ha hb |>.mpr hij)

/-- An edge between packages comes with a class. -/
theorem viaNames_ne_nil (h : model.WellFormed) {package : Package}
    (hget : model.packages[i]? = some package) {id : PackageId} (hid : id ∈ package.uses) :
    model.viaNames (PackageId.ofPosition i) id ≠ [] := by
  obtain ⟨hle, c, hc, node, hnode, use, huse, hbelongs⟩ := h.uses_via i package hget id hid
  have hpackage : model.package? (PackageId.ofPosition i) = some package := by
    rw [package?, PackageId.position_ofPosition, Nat.min_eq_left hle]
    exact hget
  have hvia : c ∈ model.vias (PackageId.ofPosition i) id := by
    unfold vias
    rw [hpackage]
    refine List.mem_filter.mpr ⟨hc, List.any_eq_true.mpr ⟨use, ?_, hbelongs⟩⟩
    rw [hnode]
    exact huse
  exact List.ne_nil_of_mem (List.mem_map_of_mem hvia)

theorem hasVias_iff (h : model.WellFormed) (ha : (model.nodeNames scope)[i]? = some a)
    (hb : (model.nodeNames scope)[j]? = some b) {edge : CycleEdge} (hsource : edge.source = a)
    (htarget : edge.target = b) :
    edge.HasVias model scope ↔ edge.vias = model.edgeVias scope i j := by
  cases scope with
  | packages =>
      rw [nodeNames_packages_getElem?, Option.map_eq_some_iff] at ha hb
      obtain ⟨p, hp, rfl⟩ := ha
      obtain ⟨q, hq, rfl⟩ := hb
      simp only [CycleEdge.HasVias, IsViaOf, hsource, htarget, packageId?_eq h hp,
        packageId?_eq h hq, edgeVias,
        Option.some.injEq, exists_eq_left', exists_and_left]
  | classes => exact Iff.rfl

theorem edgeVias_ne_nil (h : model.WellFormed) (hj : j ∈ (model.graph .packages allow).next i) :
    model.edgeVias .packages i j ≠ [] := by
  obtain ⟨package, hget, id, hid, rfl⟩ := mem_next_packages.mp hj
  rw [edgeVias, PackageId.ofPosition_position]
  exact viaNames_ne_nil h hget hid

theorem mem_edges_cycleOf {graph : Graph} {nodes : List Nat} {edge : CycleEdge} :
    edge ∈ (model.cycleOf scope graph nodes).edges ↔ ∃ i ∈ nodes, ∃ j ∈ nodes, j ∈ graph.next i
      ∧ edge = ⟨model.nodeName scope i, model.nodeName scope j, model.edgeVias scope i j⟩ := by
  simp only [cycleOf, List.mem_flatMap, List.mem_map, List.mem_filter, List.contains_iff_mem]
  refine ⟨?_, ?_⟩
  · rintro ⟨i, hi, j, ⟨hnext, hj⟩, rfl⟩
    exact ⟨i, hi, j, hj, hnext, rfl⟩
  · rintro ⟨i, hi, j, hj, hnext, rfl⟩
    exact ⟨i, hi, j, ⟨hnext, hj⟩, rfl⟩

/-! ### One cycle -/

theorem memberSet_cycleOf {graph : Graph} {nodes : List Nat}
    (hlt : ∀ v ∈ nodes, v < (model.graph scope allow).size) :
    (model.cycleOf scope graph nodes).memberSet = model.namesOf scope nodes := by
  ext a
  refine ⟨?_, ?_⟩
  · intro ha
    obtain ⟨i, hi, rfl⟩ := List.mem_map.mp ha
    obtain ⟨b, hb⟩ := exists_nodeName (hlt i hi)
    rw [nodeName_eq hb]
    exact ⟨i, hi, hb⟩
  · rintro ⟨i, hi, ha⟩
    exact List.mem_map.mpr ⟨i, hi, nodeName_eq ha⟩

theorem mem_of_mem_members (h : model.WellFormed) {graph : Graph} {nodes : List Nat}
    (hlt : ∀ v ∈ nodes, v < (model.graph scope allow).size)
    (ha : a ∈ (model.cycleOf scope graph nodes).members)
    (hi : (model.nodeNames scope)[i]? = some a) : i ∈ nodes := by
  obtain ⟨k, hk, hka⟩ : a ∈ model.namesOf scope nodes := by
    rw [← memberSet_cycleOf hlt]
    exact ha
  rw [(isAscending_nodeNames h scope).getElem?_inj hi hka]
  exact hk

/-- The edges of a cycle are the dependencies between its members. -/
theorem mem_edges_cycleOf_iff (h : model.WellFormed) {nodes : List Nat} {edge : CycleEdge}
    (hlt : ∀ v ∈ nodes, v < (model.graph scope allow).size) :
    edge ∈ (model.cycleOf scope (model.graph scope allow) nodes).edges ↔
      edge.source ∈ (model.cycleOf scope (model.graph scope allow) nodes).members
        ∧ edge.target ∈ (model.cycleOf scope (model.graph scope allow) nodes).members
        ∧ model.DependsOn scope allow edge.source edge.target ∧ edge.HasVias model scope := by
  rw [mem_edges_cycleOf]
  refine ⟨?_, ?_⟩
  · rintro ⟨i, hi, j, hj, hnext, rfl⟩
    obtain ⟨a, ha⟩ := exists_nodeName (hlt i hi)
    obtain ⟨b, hb⟩ := exists_nodeName (hlt j hj)
    refine ⟨List.mem_map_of_mem hi, List.mem_map_of_mem hj, ?_, ?_⟩
    · exact (dependsOn_iff h).mpr ⟨i, j, nodeName_eq ha ▸ ha, nodeName_eq hb ▸ hb, hnext⟩
    · exact (hasVias_iff h ha hb (nodeName_eq ha) (nodeName_eq hb)).mpr rfl
  · rintro ⟨hsource, htarget, hdepends, hvias⟩
    obtain ⟨i, j, ha, hb, hnext⟩ := (dependsOn_iff h).mp hdepends
    refine ⟨i, mem_of_mem_members h hlt hsource ha, j, mem_of_mem_members h hlt htarget hb,
      hnext, ?_⟩
    rw [nodeName_eq ha, nodeName_eq hb, ← (hasVias_iff h ha hb rfl rfl).mp hvias]

theorem edges_cycleOf_sorted (h : model.WellFormed) {nodes : List Nat}
    (hlt : ∀ v ∈ nodes, v < (model.graph scope allow).size) (hsorted : nodes.Pairwise (· < ·)) :
    (model.cycleOf scope (model.graph scope allow) nodes).edges.Pairwise fun e f =>
      e.source < f.source ∨ e.source = f.source ∧ e.target < f.target := by
  refine List.pairwise_flatMap.mpr ⟨?_, ?_⟩
  · -- The edges of one member are in the order of the members that they lead to.
    intro i _
    refine List.pairwise_map.mpr (List.Pairwise.imp_of_mem ?_
      ((next_ascending h scope allow i).filter _))
    intro j k _ hk hjk
    have hmem : k ∈ nodes := List.contains_iff_mem.mp (List.mem_filter.mp hk).2
    exact Or.inr ⟨rfl, nodeName_lt h hjk (hlt k hmem)⟩
  · refine List.Pairwise.imp_of_mem ?_ hsorted
    intro i j _ hj hij e he f hf
    obtain ⟨_, -, rfl⟩ := List.mem_map.mp he
    obtain ⟨_, -, rfl⟩ := List.mem_map.mp hf
    exact Or.inl (nodeName_lt h hij (hlt j hj))

/-- A list of nodes in order is written as a cycle that lists what it should. -/
theorem describes_cycleOf (h : model.WellFormed) {nodes : List Nat}
    (hlt : ∀ v ∈ nodes, v < (model.graph scope allow).size) (hsorted : nodes.Pairwise (· < ·)) :
    (model.cycleOf scope (model.graph scope allow) nodes).Describes model scope allow := by
  refine ⟨?_, fun edge => mem_edges_cycleOf_iff h hlt, edges_cycleOf_sorted h hlt hsorted, ?_⟩
  · refine List.pairwise_map.mpr (List.Pairwise.imp_of_mem ?_ hsorted)
    intro i j _ hj hij
    exact nodeName_lt h hij (hlt j hj)
  · intro hscope edge hedge
    obtain rfl := hscope
    obtain ⟨i, -, j, -, hnext, rfl⟩ := mem_edges_cycleOf.mp hedge
    exact edgeVias_ne_nil h hnext

/-! ### All cycles -/

theorem mem_allCycles {cycle : Cycle} : cycle ∈ model.allCycles scope allow ↔
    ∃ part ∈ (model.graph scope allow).components,
      cycle = model.cycleOf scope (model.graph scope allow) part.mergeSort := by
  simp only [allCycles, List.mem_mergeSort, List.mem_map, eq_comm]

/-- The cycle of a part lists what it should, and its members are those of the part. -/
theorem describes_of_part (h : model.WellFormed) {part : List Nat}
    (hpart : part ∈ (model.graph scope allow).components) :
    (model.cycleOf scope (model.graph scope allow) part.mergeSort).Describes model scope allow
      ∧ (model.cycleOf scope (model.graph scope allow) part.mergeSort).memberSet
        = model.namesOf scope part := by
  obtain ⟨hisPart, hlt⟩ := Graph.isPart_of_mem_components (graph_inRange h scope allow) hpart
  have hlt' : ∀ v ∈ part.mergeSort, v < (model.graph scope allow).size :=
    fun v hv => hlt v (List.mem_mergeSort.mp hv)
  refine ⟨describes_cycleOf h hlt' (pairwise_lt_mergeSort_nat hisPart.nodup), ?_⟩
  rw [memberSet_cycleOf hlt']
  ext a
  simp only [namesOf, List.mem_mergeSort]

theorem allCycles_sorted (h : model.WellFormed) :
    (model.allCycles scope allow).Pairwise fun c d => compare c.members d.members = .lt := by
  refine pairwise_lt_mergeSort Cycle.members (List.pairwise_map.mpr ?_)
  refine List.Pairwise.imp_of_mem ?_ (Graph.components_disjoint (graph_inRange h scope allow))
  intro p q hp hq hdisjoint heq
  -- Equal members would put a node of the first part into the second.
  have hsets : model.namesOf scope p = model.namesOf scope q := by
    rw [← (describes_of_part h hp).2, ← (describes_of_part h hq).2, Cycle.memberSet,
      Cycle.memberSet, heq]
  obtain ⟨a, i, hi, ha⟩ := (isCyclic_namesOf h hp).1.nonempty
  obtain ⟨j, hj, hb⟩ : a ∈ model.namesOf scope q := hsets ▸ ⟨i, hi, ha⟩
  exact hdisjoint i hi ((isAscending_nodeNames h scope).getElem?_inj ha hb ▸ hj)

/-- No two cycles have the same members. -/
theorem eq_of_memberSet_eq (h : model.WellFormed) {c d : Cycle}
    (hc : c ∈ model.allCycles scope allow) (hd : d ∈ model.allCycles scope allow)
    (heq : c.memberSet = d.memberSet) : c = d := by
  have hsorted : ∀ cycle ∈ model.allCycles scope allow, IsAscending cycle.members := by
    intro cycle hcycle
    obtain ⟨part, hpart, rfl⟩ := mem_allCycles.mp hcycle
    exact (describes_of_part h hpart).1.members_sorted.imp compare_string_lt.mpr
  have hmembers : c.members = d.members :=
    (hsorted c hc).ext (hsorted d hd) fun a => Set.ext_iff.mp heq a
  have hdistinct : (model.allCycles scope allow).Pairwise fun c d => c.members ≠ d.members := by
    refine (allCycles_sorted h).imp ?_
    intro c d hlt hcd
    rw [hcd] at hlt
    exact not_compare_self_lt _ hlt
  have hsymm : Std.Symm fun c d : Cycle => c.members ≠ d.members := ⟨fun _ _ => Ne.symm⟩
  by_contra hne
  exact hdistinct.forall hc hd hne hmembers

/-- The cycles are the cyclic sets. -/
theorem isCyclic_iff (h : model.WellFormed) {names : Set String} :
    model.IsCyclic scope allow names ↔
      ∃ cycle ∈ model.allCycles scope allow, cycle.memberSet = names := by
  simp only [mem_allCycles]
  refine ⟨?_, ?_⟩
  · intro hcyclic
    obtain ⟨part, hpart, rfl⟩ := exists_part_of_isCyclic h hcyclic
    exact ⟨_, ⟨part, hpart, rfl⟩, (describes_of_part h hpart).2⟩
  · rintro ⟨cycle, ⟨part, hpart, rfl⟩, rfl⟩
    rw [(describes_of_part h hpart).2]
    exact isCyclic_namesOf h hpart

end Model

/-! ### Groups -/

theorem Cycle.isCoveredBy_iff {cycle : Cycle} {group : List String} :
    cycle.isCoveredBy group = true ↔ cycle.memberSet ⊆ {a | a ∈ group} := by
  simp only [Cycle.isCoveredBy, List.all_eq_true, List.contains_iff_mem]
  exact Iff.rfl

theorem Cycle.isCoveredBy_ofList {cycle : Cycle} {group : List String} :
    cycle.isCoveredBy (ofList group) = true ↔ cycle.memberSet ⊆ {a | a ∈ group} := by
  simp only [isCoveredBy_iff, mem_ofList]

namespace Model

variable {exceptions : List (List String)}

theorem mem_cycles {cycle : Cycle} :
    cycle ∈ (model.detectCycles scope allow exceptions).cycles ↔
      cycle ∈ model.allCycles scope allow
        ∧ ∀ group ∈ exceptions, ¬ cycle.memberSet ⊆ {a | a ∈ group} := by
  simp only [detectCycles, List.mem_filter, Bool.not_eq_true', List.any_eq_false, List.mem_map,
    forall_exists_index, and_imp, forall_apply_eq_imp_iff₂, Cycle.isCoveredBy_ofList]

theorem isAscending_unusedExceptions :
    IsAscending (model.detectCycles scope allow exceptions).unusedExceptions :=
  (UsageCounter.counts_declare_record _ _).isAscending_unused

theorem mem_unusedExceptions (h : model.WellFormed) {group : List String} :
    group ∈ (model.detectCycles scope allow exceptions).unusedExceptions ↔
      (∃ exception ∈ exceptions, ofList exception = group)
        ∧ ∀ names, model.IsCyclic scope allow names → ¬ names ⊆ {a | a ∈ group} := by
  have hmem : group ∈ (model.detectCycles scope allow exceptions).unusedExceptions ↔ _ :=
    UsageCounter.mem_unused_declare_record
  rw [hmem]
  simp only [List.mem_map, List.mem_flatMap, List.mem_filter, not_exists, not_and]
  refine ⟨?_, ?_⟩
  · rintro ⟨hin, hnone⟩
    refine ⟨hin, ?_⟩
    intro names hcyclic hsub
    obtain ⟨cycle, hcycle, rfl⟩ := (isCyclic_iff h).mp hcyclic
    exact hnone cycle hcycle hin (Cycle.isCoveredBy_iff.mpr hsub)
  · rintro ⟨hin, hnone⟩
    refine ⟨hin, ?_⟩
    intro cycle hcycle _ hcovered
    exact hnone _ ((isCyclic_iff h).mpr ⟨cycle, hcycle, rfl⟩) (Cycle.isCoveredBy_iff.mp hcovered)

/-- **The report lists exactly the cyclic sets that no group holds.**  Each of them is in one cycle,
which lists its members and the dependencies between them in order; the cycles are in the order
of their members.  The groups that hold no cyclic set are reported once each, in order. -/
theorem detectCycles_exact (filter : PackageFilter) (records : List ClassRecord)
    (sources : List SourceRecord) (scope : CycleScope) (allow : Bool)
    (exceptions : List (List String)) :
    let model := Model.assemble filter records sources
    let report := model.detectCycles scope allow exceptions
    (∀ cycle ∈ report.cycles, cycle.Describes model scope allow
        ∧ model.IsCyclic scope allow cycle.memberSet
        ∧ ∀ group ∈ exceptions, ¬ cycle.memberSet ⊆ {a | a ∈ group})
      ∧ (∀ names, model.IsCyclic scope allow names →
          (∀ group ∈ exceptions, ¬ names ⊆ {a | a ∈ group}) →
          ∃! cycle, cycle ∈ report.cycles ∧ cycle.memberSet = names)
      ∧ (report.cycles.Pairwise fun c d => compare c.members d.members = .lt)
      ∧ (report.unusedExceptions.Pairwise fun g k => compare g k = .lt)
      ∧ ∀ group : List String, group ∈ report.unusedExceptions ↔ group.Pairwise (· < ·)
          ∧ (∃ exception ∈ exceptions, ∀ a, a ∈ exception ↔ a ∈ group)
          ∧ ∀ names, model.IsCyclic scope allow names → ¬ names ⊆ {a | a ∈ group} := by
  intro model report
  have h : model.WellFormed := assemble_wellFormed filter records sources
  have hsorted : report.cycles.Pairwise fun c d => compare c.members d.members = .lt :=
    (allCycles_sorted h).filter _
  refine ⟨?_, ?_, hsorted, isAscending_unusedExceptions, ?_⟩
  · intro cycle hcycle
    obtain ⟨hall, huncovered⟩ := mem_cycles.mp hcycle
    obtain ⟨part, hpart, rfl⟩ := mem_allCycles.mp hall
    exact ⟨(describes_of_part h hpart).1, (isCyclic_iff h).mpr ⟨_, hall, rfl⟩, huncovered⟩
  · intro names hcyclic huncovered
    obtain ⟨cycle, hall, rfl⟩ := (isCyclic_iff h).mp hcyclic
    refine ⟨cycle, ⟨mem_cycles.mpr ⟨hall, huncovered⟩, rfl⟩, ?_⟩
    intro other hsame
    obtain ⟨hother, hset⟩ := hsame
    exact eq_of_memberSet_eq h (mem_cycles.mp hother).1 hall hset
  · intro group
    rw [mem_unusedExceptions h, ← and_assoc]
    refine and_congr_left fun _ => ?_
    simp only [ofList_eq_iff, IsAscending, compare_string_lt]
    refine ⟨?_, ?_⟩
    · rintro ⟨exception, hin, hgroup, hsame⟩
      exact ⟨hgroup, exception, hin, hsame⟩
    · rintro ⟨hgroup, exception, hin, hsame⟩
      exact ⟨exception, hin, hgroup, hsame⟩

end Model

end PackageAudit
