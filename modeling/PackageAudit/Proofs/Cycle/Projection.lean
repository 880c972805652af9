/-
Cycles of classes and cycles of packages.

Both are looked for in the same model, along the uses of its classes or along those of its
packages.  A use between classes of two packages is a use between these packages, so a path
along classes is a path along their packages, and classes that depend on each other belong to
packages that do so too.

None of this needs a bound on the size of a model.  A package looks up what its classes use by
their references, and may miss a class that shares its reference with another one.  But no use
leads to such a class, so it is in no cycle.
-/
import PackageAudit.Proofs.Cycle.Report
import PackageAudit.Proofs.Model.Edges

namespace PackageAudit

open Ascending

namespace Model

/-- Whether a reference leads to a class. -/
def Referable (model : Model) (c : String) : Prop :=
  ∃ id, (model.class? id).map (·.name) = some c

/-- The packages that some classes belong to. -/
def packagesOf (model : Model) (classes : Set String) : Set String :=
  {p | ∃ c ∈ classes, model.ClassIn c p}

/-- A model whose packages use what their classes use, as far as references lead to these. -/
structure Projects (model : Model) : Prop where
  wellFormed : model.WellFormed
  package_exists : ∀ node ∈ model.classes, ∃ package, model.package? node.package = some package
  uses_of_class : ∀ c node, model.class? c = some node → ∀ use ∈ node.uses, ∀ target,
    model.class? use.1 = some target → target.package ≠ node.package →
    ∀ package, model.package? node.package = some package → target.package ∈ package.uses

theorem assemble_projects (filter : PackageFilter) (records : List ClassRecord)
    (sources : List SourceRecord) : (assemble filter records sources).Projects where
  wellFormed := assemble_wellFormed filter records sources
  package_exists := by
    intro node hnode
    obtain ⟨name, hname, rfl⟩ := exists_name_of_mem_classes filter records sources hnode
    refine ⟨_, Array.getElem?_eq_getElem ?_⟩
    rw [assemble_packages_size]
    exact Declarations.node_package_lt filter sources (Declarations.packageFor_mem hname)
  uses_of_class := by
    intro c node hc use huse target htarget hne package hpackage
    rw [eq_derive_of_getElem? filter records sources hpackage, mem_uses_derive]
    -- The class that the reference leads to is the one that the package lists.
    refine ⟨c, mem_classes_derive.mpr ⟨c.position, node, hc, rfl, c.ofPosition_position⟩, node, hc,
      mem_usedPackages.mpr ⟨hne, use, huse, ?_⟩⟩
    have hget : (assemble filter records sources).classes[use.1.position]? = some target := htarget
    rw [hget, Option.map_some]

namespace Projects

variable {model : Model} (h : model.Projects) {allow : Bool} {a b p q : String}
include h

/-! ### From classes to packages -/

/-- A use of a class, with the two classes. -/
theorem exists_classes_of_dependsOn (hab : model.DependsOn .classes allow a b) :
    ∃ node ∈ model.classes, node.name = a ∧ ∃ use ∈ node.uses, ∃ target,
      model.class? use.1 = some target ∧ target.name = b
        ∧ (allow = true → target.package ≠ node.package) := by
  obtain ⟨node, hnode, rfl, use, huse, rfl, hcounts⟩ := hab
  have hlt := h.wellFormed.classUses_lt node hnode use huse
  have htarget : model.class? use.1 = some model.classes[use.1.position] :=
    Array.getElem?_eq_getElem hlt
  refine ⟨node, hnode, rfl, use, huse, _, htarget, ?_, ?_⟩
  · rw [className, htarget, Option.map_some, Option.getD_some]
  · intro hallow hsame
    exact hcounts ⟨hallow, belongsTo_iff.mpr ⟨_, htarget, hsame⟩⟩

theorem referable_of_dependsOn (hab : model.DependsOn .classes allow a b) : model.Referable b := by
  obtain ⟨_, -, -, use, -, target, htarget, rfl, -⟩ := h.exists_classes_of_dependsOn hab
  exact ⟨use.1, by rw [htarget, Option.map_some]⟩

theorem exists_classIn_of_referable (ha : model.Referable a) : ∃ p, model.ClassIn a p := by
  obtain ⟨id, hid⟩ := ha
  obtain ⟨node, hnode, rfl⟩ := Option.map_eq_some_iff.mp hid
  obtain ⟨package, hpackage⟩ := h.package_exists node (Array.mem_of_getElem? hnode)
  exact ⟨package.name, node, Array.mem_of_getElem? hnode, rfl, by rw [hpackage, Option.map_some]⟩

/-- A use between classes stays inside a package, or it is a use between packages. -/
theorem uses_of_dependsOn (ha : model.Referable a) (hab : model.DependsOn .classes allow a b)
    (hp : model.ClassIn a p) (hq : model.ClassIn b q) : p = q ∨ model.Uses p q := by
  obtain ⟨node, hnode, rfl, use, huse, target, htarget, rfl, -⟩ := h.exists_classes_of_dependsOn hab
  obtain ⟨node', hnode', hname, hp⟩ := hp
  obtain ⟨target', htarget', hname', hq⟩ := hq
  obtain ⟨id, hid⟩ := ha
  obtain ⟨found, hfound, hname''⟩ := Option.map_eq_some_iff.mp hid
  -- Names tell classes apart, so there is one user and one used class.
  obtain rfl := class_name_inj h.wellFormed hnode' hnode hname
  obtain rfl := class_name_inj h.wellFormed htarget' (Array.mem_of_getElem? htarget) hname'
  obtain rfl := class_name_inj h.wellFormed (Array.mem_of_getElem? hfound) hnode hname''
  by_cases hsame : target'.package = found.package
  · rw [hsame, hp] at hq
    exact Or.inl (Option.some.inj hq)
  · obtain ⟨package, hpackage, rfl⟩ := Option.map_eq_some_iff.mp hp
    refine Or.inr ⟨package, Array.mem_of_getElem? hpackage, rfl, target'.package, ?_, ?_⟩
    · exact h.uses_of_class id found hfound use huse target' htarget hsame package hpackage
    · rw [packageName, hq, Option.getD_some]

/-- A path along classes is a path along their packages. -/
theorem reach_packages (ha : model.Referable a) (hp : model.ClassIn a p) {allow' : Bool}
    (hpath : Relation.ReflTransGen (model.DependsOn .classes allow) a b) (hq : model.ClassIn b q) :
    Relation.ReflTransGen (model.DependsOn .packages allow') p q := by
  -- The last class of the path is kept referable along with it, for the step behind it.
  suffices hall : model.Referable b ∧ ∀ q, model.ClassIn b q →
      Relation.ReflTransGen (model.DependsOn .packages allow') p q from hall.2 q hq
  clear hq
  induction hpath with
  | refl =>
      refine ⟨ha, ?_⟩
      intro q hq
      obtain ⟨node, hnode, rfl, hp⟩ := hp
      obtain ⟨node', hnode', hname, hq⟩ := hq
      obtain rfl := class_name_inj h.wellFormed hnode' hnode hname
      rw [Option.some.inj (hp.symm.trans hq)]
  | @tail c d _ hedge ih =>
      obtain ⟨hc, hreach⟩ := ih
      refine ⟨h.referable_of_dependsOn hedge, ?_⟩
      intro q hq
      obtain ⟨r, hr⟩ := h.exists_classIn_of_referable hc
      rcases h.uses_of_dependsOn hc hedge hr hq with rfl | huses
      · exact hreach r hr
      · exact (hreach r hr).tail huses

/-! ### Cycles -/

/-- A class in a cycle is used by another one, so that a reference leads to it. -/
theorem referable_of_isCyclic {names : Set String} (hcyclic : model.IsCyclic .classes allow names)
    (ha : a ∈ names) : model.Referable a := by
  obtain ⟨hnontrivial, hreach, -⟩ := hcyclic
  obtain ⟨b, hb, hne⟩ := hnontrivial.exists_ne a
  rcases (hreach b hb a ha).cases_tail with heq | ⟨c, -, hedge⟩
  · exact absurd heq.symm hne
  · exact h.referable_of_dependsOn hedge

/-- The packages of a cycle of classes, if there are several, are in one cycle of packages. -/
theorem exists_isCyclic_packages {names : Set String} {allow' : Bool}
    (hcyclic : model.IsCyclic .classes allow names)
    (hseveral : (model.packagesOf names).Nontrivial) :
    ∃ more, model.IsCyclic .packages allow' more ∧ model.packagesOf names ⊆ more := by
  refine exists_isCyclic_of_reach hseveral ?_
  intro p hp q hq
  obtain ⟨a, ha, hp⟩ := hp
  obtain ⟨b, hb, hq⟩ := hq
  exact h.reach_packages (h.referable_of_isCyclic hcyclic ha) hp (hcyclic.2.1 a ha b hb) hq

/-- Without uses inside a package, a cycle of classes takes more than one package. -/
theorem packagesOf_nontrivial {names : Set String}
    (hcyclic : model.IsCyclic .classes true names) : (model.packagesOf names).Nontrivial := by
  obtain ⟨a, ha, b, hb, hne⟩ := hcyclic.1
  rcases (hcyclic.2.1 a ha b hb).cases_head with heq | ⟨c, hac, hcb⟩
  · exact absurd heq hne
  -- The way from `c` to `a` leads through `b`, so `c` is a member too.
  have hc : c ∈ names :=
    hcyclic.peers_subset ha ⟨.single hac, hcb.trans (hcyclic.2.1 b hb a ha)⟩
  obtain ⟨p, hp⟩ := h.exists_classIn_of_referable (h.referable_of_isCyclic hcyclic ha)
  obtain ⟨q, hq⟩ := h.exists_classIn_of_referable (h.referable_of_isCyclic hcyclic hc)
  refine ⟨p, ⟨a, ha, hp⟩, q, ⟨c, hc, hq⟩, ?_⟩
  intro heq
  obtain rfl := heq
  obtain ⟨node, hnode, rfl, use, -, target, htarget, rfl, hdiffer⟩ :=
    h.exists_classes_of_dependsOn hac
  obtain ⟨node', hnode', hname, hp⟩ := hp
  obtain ⟨target', htarget', hname', hq⟩ := hq
  obtain rfl := class_name_inj h.wellFormed hnode' hnode hname
  obtain rfl := class_name_inj h.wellFormed htarget' (Array.mem_of_getElem? htarget) hname'
  exact hdiffer rfl (package?_name_inj h.wellFormed hq hp)

end Projects

theorem dependsOn_of_allow {model : Model} {allow : Bool} {a b : String}
    (hab : model.DependsOn .classes allow a b) : model.DependsOn .classes false a b := by
  obtain ⟨node, hnode, ha, use, huse, hb, -⟩ := hab
  exact ⟨node, hnode, ha, use, huse, hb, fun hc => Bool.noConfusion hc.1⟩

/-- Leaving uses inside packages out makes cycles smaller, and no new ones. -/
theorem exists_isCyclic_of_allow {model : Model} {allow : Bool} {names : Set String}
    (hcyclic : model.IsCyclic .classes allow names) :
    ∃ more, model.IsCyclic .classes false more ∧ names ⊆ more := by
  have hle : model.DependsOn .classes allow ≤ model.DependsOn .classes false :=
    fun _ _ => dependsOn_of_allow
  exact exists_isCyclic_of_reach hcyclic.1 fun a ha b hb =>
    Relation.ReflTransGen.mono hle _ _ (hcyclic.2.1 a ha b hb)

/-- The cycles that are reported without any allowed group are the cyclic sets. -/
theorem isCyclic_iff_reported {model : Model} {scope : CycleScope} {allow : Bool}
    {names : Set String} (h : model.WellFormed) : model.IsCyclic scope allow names ↔
      ∃ cycle ∈ (model.detectCycles scope allow []).cycles, cycle.memberSet = names := by
  rw [isCyclic_iff h]
  simp [mem_cycles]

/-- **Cycles of classes and cycles of packages agree.**  The packages of a cycle of classes are in
one cycle of packages, if there are two of them or more.  That is always so where uses inside
packages are left out, and such a cycle is part of one that is found with them. -/
theorem cycles_agree (filter : PackageFilter) (records : List ClassRecord)
    (sources : List SourceRecord) :
    let model := Model.assemble filter records sources
    (∀ allow allow', ∀ cycle ∈ (model.detectCycles .classes allow []).cycles,
      (model.packagesOf cycle.memberSet).Nontrivial →
        ∃ joint ∈ (model.detectCycles .packages allow' []).cycles,
          model.packagesOf cycle.memberSet ⊆ joint.memberSet)
      ∧ ∀ cycle ∈ (model.detectCycles .classes true []).cycles,
          (model.packagesOf cycle.memberSet).Nontrivial
            ∧ ∃ wider ∈ (model.detectCycles .classes false []).cycles,
                cycle.memberSet ⊆ wider.memberSet := by
  intro model
  have h : model.Projects := assemble_projects filter records sources
  have hreported : ∀ scope allow names, model.IsCyclic scope allow names ↔ _ :=
    fun _ _ _ => isCyclic_iff_reported h.wellFormed
  refine ⟨?_, ?_⟩
  · intro allow allow' cycle hcycle hseveral
    have hcyclic := (hreported .classes allow _).mpr ⟨cycle, hcycle, rfl⟩
    obtain ⟨more, hmore, hsub⟩ := h.exists_isCyclic_packages hcyclic hseveral
    obtain ⟨joint, hjoint, rfl⟩ := (hreported .packages allow' more).mp hmore
    exact ⟨joint, hjoint, hsub⟩
  · intro cycle hcycle
    have hcyclic := (hreported .classes true _).mpr ⟨cycle, hcycle, rfl⟩
    obtain ⟨more, hmore, hsub⟩ := exists_isCyclic_of_allow hcyclic
    obtain ⟨wider, hwider, rfl⟩ := (hreported .classes false more).mp hmore
    exact ⟨h.packagesOf_nontrivial hcyclic, wider, hwider, hsub⟩

/-- Two classes of `app` and one of `lib`, in a ring with a shortcut past one of the two. -/
def ringRecords : List ClassRecord :=
  [{ name := "app.A", references := [("lib.B", 1)] },
    { name := "app.C", references := [("app.A", 1)] },
    { name := "lib.B", references := [("app.A", 1), ("app.C", 1)] }]

/-- The shortcut alone is a cycle without the use inside `app`; its packages are in a cycle, and it
is part of the ring. -/
theorem ring_cycles_agree :
    ∃ cycle ∈ ((assemble {} ringRecords []).detectCycles .classes true []).cycles,
      cycle.memberSet = {"app.A", "lib.B"}
        ∧ (∃ joint ∈ ((assemble {} ringRecords []).detectCycles .packages false []).cycles,
          (assemble {} ringRecords []).packagesOf cycle.memberSet ⊆ joint.memberSet)
        ∧ ∃ wider ∈ ((assemble {} ringRecords []).detectCycles .classes false []).cycles,
          cycle.memberSet ⊆ wider.memberSet := by
  have hparts : ((assemble {} ringRecords []).graph .classes true).components = [[2, 0]] := by
    decide +kernel
  have hnames : (assemble {} ringRecords []).nodeNames .classes = ["app.A", "app.C", "lib.B"] := by
    decide +kernel
  have hpart : [2, 0] ∈ ((assemble {} ringRecords []).graph .classes true).components :=
    hparts ▸ List.mem_cons_self
  obtain ⟨cycle, hcycle, hset⟩ := (isCyclic_iff_reported (assemble_wellFormed _ _ _)).mp
    (isCyclic_namesOf (assemble_wellFormed _ _ _) hpart)
  obtain ⟨hjoint, hwider⟩ := cycles_agree {} ringRecords []
  obtain ⟨hseveral, hwider⟩ := hwider cycle hcycle
  refine ⟨cycle, hcycle, ?_, hjoint true false cycle hcycle hseveral, hwider⟩
  rw [hset, namesOf, hnames]
  ext a
  simp [eq_comm, or_comm]

end Model

end PackageAudit
