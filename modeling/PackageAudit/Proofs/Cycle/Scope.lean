/-
The graph of a scope, by names.

The search for cycles runs on positions.  What it is about are names: which package or class
depends on which, and which of them depend on each other.  Names are in the order of the
positions and no name occurs twice, so a path along positions is a path along names, and the
sets of names that depend on each other are the names of the strongly connected parts.
-/
import Mathlib.Data.Set.Subsingleton
import Mathlib.Order.Minimal
import PackageAudit.Cycle
import PackageAudit.Proofs.Graph.Components
import PackageAudit.Proofs.Model.Names

namespace PackageAudit

open Ascending

namespace Model

variable {model : Model} {scope : CycleScope} {allow : Bool} {i j : Nat} {a b : String}

/-- The names of the packages or of the classes of a model, in order. -/
def nodeNames (model : Model) : CycleScope → List String
  | .packages => model.packages.toList.map (·.name)
  | .classes => model.classes.toList.map (·.name)

/-- Whether one package or class uses another, by name.  Between classes of one package a use does
not count if such uses are allowed. -/
def DependsOn (model : Model) (scope : CycleScope) (allow : Bool) (a b : String) : Prop :=
  match scope with
  | .packages => model.Uses a b
  | .classes => ∃ node ∈ model.classes, node.name = a
      ∧ ∃ use ∈ node.uses, model.className use.1 = b
        ∧ ¬ (allow = true ∧ model.belongsTo use.1 node.package = true)

/-- A largest set of two or more packages or classes each of which depends on each other one,
directly or through others. -/
def IsCyclic (model : Model) (scope : CycleScope) (allow : Bool) (names : Set String) : Prop :=
  names.Nontrivial ∧ Maximal (fun set : Set String => ∀ a ∈ set, ∀ b ∈ set,
    Relation.ReflTransGen (model.DependsOn scope allow) a b) names

/-! ### Cyclic sets -/

/-- What a package or class depends on, as long as it is depended on in turn. -/
def peers (model : Model) (scope : CycleScope) (allow : Bool) (a : String) : Set String :=
  {b | Relation.ReflTransGen (model.DependsOn scope allow) a b
    ∧ Relation.ReflTransGen (model.DependsOn scope allow) b a}

theorem peers_reach : ∀ b ∈ model.peers scope allow a, ∀ c ∈ model.peers scope allow a,
    Relation.ReflTransGen (model.DependsOn scope allow) b c :=
  fun _ hb _ hc => hb.2.trans hc.1

/-- Two or more names that depend on each other are in one cyclic set. -/
theorem exists_isCyclic_of_reach {names : Set String} (hnontrivial : names.Nontrivial)
    (hreach : ∀ a ∈ names, ∀ b ∈ names,
      Relation.ReflTransGen (model.DependsOn scope allow) a b) :
    ∃ more, model.IsCyclic scope allow more ∧ names ⊆ more := by
  obtain ⟨a, ha⟩ := hnontrivial.nonempty
  have hsub : names ⊆ model.peers scope allow a :=
    fun b hb => ⟨hreach a ha b hb, hreach b hb a ha⟩
  refine ⟨_, ⟨hnontrivial.mono hsub, peers_reach, ?_⟩, hsub⟩
  intro set hset hle b hb
  have ha' : a ∈ set := hle (hsub ha)
  exact ⟨hset a ha' b hb, hset b hb a ha'⟩

/-- A cyclic set holds all peers of its members. -/
theorem IsCyclic.peers_subset {names : Set String} (h : model.IsCyclic scope allow names)
    (ha : a ∈ names) : model.peers scope allow a ⊆ names := by
  obtain ⟨-, hreach, hmax⟩ := h
  exact hmax peers_reach fun b hb => ⟨hreach a ha b hb, hreach b hb a ha⟩

/-! ### Names and positions -/

theorem isAscending_nodeNames (h : model.WellFormed) (scope : CycleScope) :
    IsAscending (model.nodeNames scope) := by
  cases scope with
  | packages => exact h.packages_ascending
  | classes => exact h.classes_ascending

theorem nodeName_eq (h : (model.nodeNames scope)[i]? = some a) : model.nodeName scope i = a := by
  cases scope <;>
  · simp only [nodeNames, List.getElem?_map, Array.getElem?_toList] at h
    simp only [nodeName, h, Option.getD_some]

theorem nodeNames_packages_getElem? :
    (model.nodeNames .packages)[i]? = (model.packages[i]?).map (·.name) := by
  rw [nodeNames, List.getElem?_map, Array.getElem?_toList]

theorem nodeNames_classes_getElem? :
    (model.nodeNames .classes)[i]? = (model.classes[i]?).map (·.name) := by
  rw [nodeNames, List.getElem?_map, Array.getElem?_toList]

theorem length_nodeNames (model : Model) (scope : CycleScope) (allow : Bool) :
    (model.nodeNames scope).length = (model.graph scope allow).size := by
  cases scope <;> simp [nodeNames, graph, Graph.size]

/-! ### Edges -/

theorem next_packages (model : Model) (allow : Bool) (i : Nat) :
    (model.graph .packages allow).next i
      = ((model.packages[i]?).map fun package => package.uses.map PackageId.position).getD [] := by
  show (model.packages.map _).getD i [] = _
  rw [Array.getD_eq_getD_getElem?, Array.getElem?_map]

theorem next_classes (model : Model) (allow : Bool) (i : Nat) :
    (model.graph .classes allow).next i
      = ((model.classes[i]?).map fun node =>
          (model.countedUses allow node).map ClassId.position).getD [] := by
  show (model.classes.map _).getD i [] = _
  rw [Array.getD_eq_getD_getElem?, Array.getElem?_map]

theorem mem_next_packages : j ∈ (model.graph .packages allow).next i ↔
    ∃ package, model.packages[i]? = some package ∧ ∃ id ∈ package.uses, id.position = j := by
  rw [next_packages]
  cases model.packages[i]? with
  | none => simp
  | some package => simp

theorem mem_countedUses {node : ClassNode} {id : ClassId} :
    id ∈ model.countedUses allow node ↔
      (∃ use ∈ node.uses, use.1 = id)
        ∧ ¬ (allow = true ∧ model.belongsTo id node.package = true) := by
  unfold countedUses
  rw [List.mem_filter, List.mem_map, Bool.not_eq_true', ← Bool.not_eq_true, Bool.and_eq_true]

theorem mem_next_classes : j ∈ (model.graph .classes allow).next i ↔
    ∃ node, model.classes[i]? = some node ∧ ∃ use ∈ node.uses, use.1.position = j
      ∧ ¬ (allow = true ∧ model.belongsTo use.1 node.package = true) := by
  rw [next_classes]
  cases model.classes[i]? with
  | none => simp
  | some node =>
      simp only [Option.map_some, Option.getD_some, List.mem_map, mem_countedUses,
        Option.some.injEq, exists_eq_left']
      refine ⟨?_, ?_⟩
      · rintro ⟨id, ⟨⟨use, huse, rfl⟩, hcount⟩, hj⟩
        exact ⟨use, huse, hj, hcount⟩
      · rintro ⟨use, huse, hj, hcount⟩
        exact ⟨use.1, ⟨⟨use, huse, rfl⟩, hcount⟩, hj⟩

theorem graph_inRange (h : model.WellFormed) (scope : CycleScope) (allow : Bool) :
    (model.graph scope allow).InRange := by
  intro i j hj
  rw [← length_nodeNames]
  cases scope with
  | packages =>
      obtain ⟨package, hget, id, hid, rfl⟩ := mem_next_packages.mp hj
      rw [nodeNames, List.length_map, Array.length_toList]
      exact h.uses_lt package (Array.mem_of_getElem? hget) id hid
  | classes =>
      obtain ⟨node, hget, use, huse, rfl, -⟩ := mem_next_classes.mp hj
      rw [nodeNames, List.length_map, Array.length_toList]
      exact h.classUses_lt node (Array.mem_of_getElem? hget) use huse

/-- The successors of a node are in order. -/
theorem next_ascending (h : model.WellFormed) (scope : CycleScope) (allow : Bool) (i : Nat) :
    ((model.graph scope allow).next i).Pairwise (· < ·) := by
  cases scope with
  | packages =>
      rw [next_packages]
      cases hget : model.packages[i]? with
      | none => exact List.Pairwise.nil
      | some package =>
          refine List.pairwise_map.mpr ?_
          exact (h.uses_ascending package (Array.mem_of_getElem? hget)).imp PackageId.compare_lt.mp
  | classes =>
      rw [next_classes]
      cases hget : model.classes[i]? with
      | none => exact List.Pairwise.nil
      | some node =>
          refine List.pairwise_map.mpr ?_
          refine List.Pairwise.filter _ ?_
          exact (h.classUses_table node (Array.mem_of_getElem? hget)).imp ClassId.compare_lt.mp

/-- A dependency between names is an edge between their positions. -/
theorem dependsOn_iff (h : model.WellFormed) :
    model.DependsOn scope allow a b ↔ ∃ i j, (model.nodeNames scope)[i]? = some a
      ∧ (model.nodeNames scope)[j]? = some b ∧ j ∈ (model.graph scope allow).next i := by
  cases scope with
  | packages =>
      simp only [nodeNames_packages_getElem?, mem_next_packages]
      refine ⟨?_, ?_⟩
      · rintro ⟨package, hmem, rfl, id, hid, rfl⟩
        obtain ⟨i, hget⟩ := Array.mem_iff_getElem?.mp hmem
        refine ⟨i, id.position, by rw [hget]; rfl, ?_, package, hget, id, hid, rfl⟩
        have hlt := h.uses_lt package hmem id hid
        rw [packageName, package?, Array.getElem?_eq_getElem hlt]
        rfl
      · rintro ⟨i, j, hi, hj, package, hget, id, hid, rfl⟩
        rw [hget] at hi
        refine ⟨package, Array.mem_of_getElem? hget, Option.some.inj hi, id, hid, ?_⟩
        rw [packageName, package?, hj, Option.getD_some]
  | classes =>
      simp only [nodeNames_classes_getElem?, mem_next_classes]
      refine ⟨?_, ?_⟩
      · rintro ⟨node, hmem, rfl, use, huse, rfl, hcount⟩
        obtain ⟨i, hget⟩ := Array.mem_iff_getElem?.mp hmem
        refine ⟨i, use.1.position, by rw [hget]; rfl, ?_, node, hget, use, huse, rfl, hcount⟩
        have hlt := h.classUses_lt node hmem use huse
        rw [className, class?, Array.getElem?_eq_getElem hlt]
        rfl
      · rintro ⟨i, j, hi, hj, node, hget, use, huse, rfl, hcount⟩
        rw [hget] at hi
        refine ⟨node, Array.mem_of_getElem? hget, Option.some.inj hi, use, huse, ?_, hcount⟩
        rw [className, class?, hj, Option.getD_some]

/-! ### Paths -/

theorem exists_nodeName (hi : i < (model.graph scope allow).size) :
    ∃ a, (model.nodeNames scope)[i]? = some a := by
  rw [← length_nodeNames] at hi
  exact ⟨_, List.getElem?_eq_getElem hi⟩

theorem reach_iff (h : model.WellFormed) (hi : (model.nodeNames scope)[i]? = some a) :
    Relation.ReflTransGen (model.DependsOn scope allow) a b ↔
      ∃ j, (model.nodeNames scope)[j]? = some b ∧ (model.graph scope allow).Reach i j := by
  refine ⟨?_, ?_⟩
  · intro hpath
    induction hpath with
    | refl => exact ⟨i, hi, Graph.Reach.refl i⟩
    | tail _ hedge ih =>
        obtain ⟨j, hj, hreach⟩ := ih
        obtain ⟨j', k, hj', hk, hnext⟩ := (dependsOn_iff h).mp hedge
        obtain rfl := (isAscending_nodeNames h scope).getElem?_inj hj hj'
        exact ⟨k, hk, hreach.trans (Graph.Reach.edge hnext)⟩
  · rintro ⟨j, hj, hreach⟩
    induction hreach generalizing b with
    | refl =>
        rw [hi] at hj
        rw [Option.some.inj hj]
    | tail _ hedge ih =>
        rename_i k l _
        -- The node before the last one has a name, since an edge leaves it.
        have hk : k < (model.graph scope allow).size := by
          by_contra hc
          rw [Graph.next, Array.getD_eq_getD_getElem?,
            Array.getElem?_eq_none (Nat.le_of_not_lt hc)] at hedge
          exact absurd hedge List.not_mem_nil
        obtain ⟨c, hc⟩ := exists_nodeName hk
        exact (ih hc).tail ((dependsOn_iff h).mpr ⟨k, l, hc, hj, hedge⟩)

theorem reach_iff_reach (h : model.WellFormed) (hi : (model.nodeNames scope)[i]? = some a)
    (hj : (model.nodeNames scope)[j]? = some b) :
    Relation.ReflTransGen (model.DependsOn scope allow) a b ↔
      (model.graph scope allow).Reach i j := by
  rw [reach_iff h hi]
  refine ⟨?_, ?_⟩
  · rintro ⟨j', hj', hreach⟩
    obtain rfl := (isAscending_nodeNames h scope).getElem?_inj hj hj'
    exact hreach
  · exact fun hreach => ⟨j, hj, hreach⟩

/-! ### Cyclic sets are the parts of the graph -/

/-- The names of a list of nodes. -/
def namesOf (model : Model) (scope : CycleScope) (nodes : List Nat) : Set String :=
  {a | ∃ i ∈ nodes, (model.nodeNames scope)[i]? = some a}

/-- The members of a part depend on each other. -/
theorem namesOf_reach (h : model.WellFormed) {part : List Nat}
    (hpart : Search.IsPart (model.graph scope allow) part) :
    ∀ a ∈ model.namesOf scope part, ∀ b ∈ model.namesOf scope part,
      Relation.ReflTransGen (model.DependsOn scope allow) a b := by
  intro a ha b hb
  obtain ⟨i, hi, hia⟩ := ha
  obtain ⟨j, hj, hjb⟩ := hb
  exact (reach_iff_reach h hia hjb).mpr ((hpart.mem_iff i hi j).mp hj).1

theorem isCyclic_namesOf (h : model.WellFormed) {part : List Nat}
    (hpart : part ∈ (model.graph scope allow).components) :
    model.IsCyclic scope allow (model.namesOf scope part) := by
  obtain ⟨hpart, hlt⟩ := Graph.isPart_of_mem_components (graph_inRange h scope allow) hpart
  refine ⟨?_, namesOf_reach h hpart, ?_⟩
  · -- The first two nodes of the part have different names.
    obtain ⟨i, j, rest, rfl⟩ : ∃ i j rest, part = i :: j :: rest := by
      match part, hpart.one_lt_length with
      | i :: j :: rest, _ => exact ⟨i, j, rest, rfl⟩
    have hi : i ∈ i :: j :: rest := List.mem_cons_self
    have hj : j ∈ i :: j :: rest := List.mem_cons_of_mem i List.mem_cons_self
    obtain ⟨a, ha⟩ := exists_nodeName (hlt i hi)
    obtain ⟨b, hb⟩ := exists_nodeName (hlt j hj)
    refine ⟨a, ⟨i, hi, ha⟩, b, ⟨j, hj, hb⟩, ?_⟩
    intro heq
    obtain rfl := heq
    have heq := (isAscending_nodeNames h scope).getElem?_inj ha hb
    exact (List.nodup_cons.mp hpart.nodup).1 (heq ▸ List.mem_cons_self)
  · intro names hreach hsub b hb
    obtain ⟨i, hi⟩ := List.exists_mem_of_length_pos (Nat.lt_trans Nat.zero_lt_one
      hpart.one_lt_length)
    obtain ⟨a, ha⟩ := exists_nodeName (hlt i hi)
    have hmem : a ∈ names := hsub ⟨i, hi, ha⟩
    obtain ⟨j, hj, hij⟩ := (reach_iff h ha).mp (hreach a hmem b hb)
    have hji := (reach_iff_reach h hj ha).mp (hreach b hb a hmem)
    exact ⟨j, (hpart.mem_iff i hi j).mpr ⟨hij, hji⟩, hj⟩

theorem exists_part_of_isCyclic (h : model.WellFormed) {names : Set String}
    (hcyclic : model.IsCyclic scope allow names) :
    ∃ part ∈ (model.graph scope allow).components, model.namesOf scope part = names := by
  obtain ⟨⟨a, ha, b, hb, hne⟩, hreach, hmax⟩ := hcyclic
  have hrange := graph_inRange h scope allow
  -- The first of two members has a node, since it depends on something.
  obtain heq | ⟨c, hac, -⟩ := (hreach a ha b hb).cases_head
  · exact absurd heq hne
  obtain ⟨i, -, hia, -, -⟩ := (dependsOn_iff h).mp hac
  have hnode : ∀ c ∈ names, ∃ k, (model.nodeNames scope)[k]? = some c
      ∧ (model.graph scope allow).Mutual i k := by
    intro c hc
    obtain ⟨k, hk, hik⟩ := (reach_iff h hia).mp (hreach a ha c hc)
    exact ⟨k, hk, hik, (reach_iff_reach h hk hia).mp (hreach c hc a ha)⟩
  obtain ⟨j, hjb, hij⟩ := hnode b hb
  have hi : i < (model.graph scope allow).size := by
    rw [← length_nodeNames]
    exact (List.getElem?_eq_some_iff.mp hia).1
  have hne' : i ≠ j := by
    intro heq
    obtain rfl := heq
    exact hne (Option.some.inj (hia.symm.trans hjb))
  obtain ⟨part, hmem, hpi⟩ := Graph.exists_component hrange hi hne' hij
  obtain ⟨hpart, -⟩ := Graph.isPart_of_mem_components hrange hmem
  have hsub : names ⊆ model.namesOf scope part := by
    intro c hc
    obtain ⟨k, hk, hik⟩ := hnode c hc
    exact ⟨k, (hpart.mem_iff i hpi k).mpr hik, hk⟩
  exact ⟨part, hmem, (hmax (namesOf_reach h hpart) hsub).antisymm hsub⟩

end Model

end PackageAudit
