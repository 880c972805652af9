/-
What more class records add to a model.

With more records there are more names, and with them every position in the tables may change.
So two models are compared by name: what the smaller one says of packages, classes and uses,
the larger one says too.  That is what `Within` asks for, and it is all that is needed to
compare what is found in them.

Of several records of one name the first counts.  A record that comes later declares a class
that was only mentioned before, or it plays no part; it never takes a declaration away.
-/
import Mathlib.Data.List.Perm.Subperm
import PackageAudit.Proofs.Cycle.Scope
import PackageAudit.Proofs.Model.Edges

namespace PackageAudit

open Ascending

/-! ### Records -/

namespace PackageFilter

variable {filter : PackageFilter} {records more : List ClassRecord} {record : ClassRecord}
  {name : String}

theorem declaration?_append (filter : PackageFilter) (records more : List ClassRecord)
    (name : String) : filter.declaration? (records ++ more) name
      = (filter.declaration? records name).or (filter.declaration? more name) :=
  List.find?_append

theorem declaration?_append_left (h : filter.declaration? records name = some record) :
    filter.declaration? (records ++ more) name = some record := by
  rw [declaration?_append, h, Option.some_or]

theorem Mentioned.append_left (h : filter.Mentioned records name) (more : List ClassRecord) :
    filter.Mentioned (records ++ more) name := by
  obtain ⟨user, record, hdeclared, hmem⟩ := h
  exact ⟨user, record, declaration?_append_left hdeclared, hmem⟩

end PackageFilter

namespace Model

/-! ### Classes and their uses by name -/

section Assemble

variable {filter : PackageFilter} {records : List ClassRecord} {sources : List SourceRecord}

/-- What a class refers to, however often: the positions of what its declaration mentions. -/
theorem mem_keys_uses_nodeOf {name : String} {id : ClassId} :
    id ∈ (nodeOf filter records sources name).uses.map Prod.fst ↔
      ∃ record, filter.declaration? records name = some record
        ∧ ∃ t count i, (t, count) ∈ record.references ∧ 0 < count
          ∧ ((Declarations.ofRecords filter records).classNames filter)[i]? = some t
          ∧ ClassId.ofPosition i = id := by
  have hascending := Declarations.isAscending_classNames
    (Declarations.named_ofRecords filter records) filter
  unfold nodeOf Declarations.node
  rw [Declarations.find?_ofRecords]
  cases filter.declaration? records name with
  | none => simp [ClassNode.stub]
  | some record =>
      show id ∈ (ofPairs _).map Prod.fst ↔ _
      rw [mem_keys_ofPairs, List.mem_map]
      simp only [List.mem_filterMap, List.mem_filter, decide_eq_true_eq, Option.map_eq_some_iff,
        position?_eq_some_iff hascending, Prod.exists, Option.some.injEq, exists_eq_left']
      refine ⟨?_, ?_⟩
      · rintro ⟨_, _, ⟨t, count, ⟨hmem, hpos⟩, i, hi, heq⟩, rfl⟩
        exact ⟨t, count, i, hmem, hpos, hi, congrArg Prod.fst heq⟩
      · rintro ⟨t, count, i, hmem, hpos, hi, rfl⟩
        exact ⟨_, count, ⟨t, count, ⟨hmem, hpos⟩, i, hi, rfl⟩, rfl⟩

/-- Whether a class uses another at all, by name. -/
def ClassUsesAny (model : Model) (c t : String) : Prop := ∃ count, model.ClassUses c t count

/-- A class uses the classes that its declaration mentions, those that are ignored apart. -/
theorem classUsesAny_iff (hidx : (assemble filter records sources).ClassesIndexed)
    {c t : String} : (assemble filter records sources).ClassUsesAny c t ↔
      filter.isIgnored t = false ∧ ∃ record count, filter.declaration? records c = some record
        ∧ (t, count) ∈ record.references ∧ 0 < count := by
  refine ⟨?_, ?_⟩
  · rintro ⟨count, node, hnode, rfl, use, huse, -, ht⟩
    have hkey : use.1 ∈ node.uses.map Prod.fst := List.mem_map_of_mem huse
    rw [(eq_nodeOf_of_mem filter records sources hnode).1, mem_keys_uses_nodeOf] at hkey
    obtain ⟨record, hdeclared, t', count, i, hmem, hpos, hi, hid⟩ := hkey
    rw [← hid, class?_ofPosition_name hidx hi, Option.some.injEq] at ht
    rw [ht] at hmem hi
    exact ⟨(mem_classNames_of_mention hdeclared hmem).mp (List.mem_of_getElem? hi),
      record, count, hdeclared, hmem, hpos⟩
  · rintro ⟨hignored, record, count, hdeclared, hmem, hpos⟩
    have hc : c ∈ (Declarations.ofRecords filter records).classNames filter :=
      (Declarations.mem_classNames filter records).mpr
        (Or.inl (Option.isSome_iff_exists.mpr ⟨record, hdeclared⟩))
    obtain ⟨i, hi⟩ := List.mem_iff_getElem?.mp
      ((mem_classNames_of_mention hdeclared hmem).mpr hignored)
    have hkey : ClassId.ofPosition i ∈ (nodeOf filter records sources c).uses.map Prod.fst :=
      mem_keys_uses_nodeOf.mpr ⟨record, hdeclared, t, count, i, hmem, hpos, hi, rfl⟩
    obtain ⟨use, huse, hid⟩ := List.mem_map.mp hkey
    refine ⟨use.2, _, nodeOf_mem filter records sources hc, nodeOf_name _ _ _ c, use, huse, rfl, ?_⟩
    rw [hid]
    exact class?_ofPosition_name hidx hi

/-- A class belongs to the package that the filter puts it in. -/
theorem assemble_classIn_iff (hidx : (assemble filter records sources).Indexed) {c p : String} :
    (assemble filter records sources).ClassIn c p ↔
      (∃ node ∈ (assemble filter records sources).classes, node.name = c)
        ∧ filter.packageFor c = p := by
  refine ⟨?_, ?_⟩
  · rintro ⟨node, hnode, rfl, hp⟩
    rw [package_of_class filter records sources hidx hnode] at hp
    exact ⟨⟨node, hnode, rfl⟩, Option.some.inj hp⟩
  · rintro ⟨⟨node, hnode, rfl⟩, rfl⟩
    exact ⟨node, hnode, rfl, package_of_class filter records sources hidx hnode⟩

end Assemble

/-! ### Packages of classes by name -/

namespace Linked

variable {model : Model} (h : model.Linked) {a b c p q : String}
include h

/-- A class belongs to one package. -/
theorem classIn_unique (hp : model.ClassIn c p) (hq : model.ClassIn c q) : p = q := by
  obtain ⟨node, hnode, rfl, hp⟩ := hp
  obtain ⟨other, hother, hname, hq⟩ := hq
  obtain rfl := class_name_inj h.wellFormed hother hnode hname
  exact Option.some.inj (hp.symm.trans hq)

theorem exists_classIn {node : ClassNode} (hnode : node ∈ model.classes) :
    ∃ p, model.ClassIn node.name p := by
  obtain ⟨package, hpackage⟩ := h.package_exists node hnode
  exact ⟨package.name, node, hnode, rfl, by rw [hpackage, Option.map_some]⟩

/-- Two classes share a package if they refer to the same one. -/
theorem package_eq_iff {node other : ClassNode} (hnode : node ∈ model.classes)
    (hother : other ∈ model.classes) : node.package = other.package ↔
      ∃ p, model.ClassIn node.name p ∧ model.ClassIn other.name p := by
  refine ⟨?_, ?_⟩
  · intro heq
    obtain ⟨package, hpackage⟩ := h.package_exists node hnode
    refine ⟨package.name, ⟨node, hnode, rfl, ?_⟩, ⟨other, hother, rfl, ?_⟩⟩
    · rw [hpackage, Option.map_some]
    · rw [← heq, hpackage, Option.map_some]
  · rintro ⟨p, ⟨node', hnode', hname, hp⟩, ⟨other', hother', hname', hp'⟩⟩
    obtain rfl := class_name_inj h.wellFormed hnode' hnode hname
    obtain rfl := class_name_inj h.wellFormed hother' hother hname'
    exact package?_name_inj h.wellFormed hp hp'

/-- A use between classes counts unless both are of one package and such uses are allowed. -/
theorem dependsOn_classes_iff {allow : Bool} : model.DependsOn .classes allow a b ↔
    model.ClassUsesAny a b
      ∧ ¬(allow = true ∧ ∃ p, model.ClassIn a p ∧ model.ClassIn b p) := by
  refine ⟨?_, ?_⟩
  · rintro ⟨node, hnode, rfl, use, huse, rfl, hcounts⟩
    have hlt := h.wellFormed.classUses_lt node hnode use huse
    have htarget : model.class? use.1 = some model.classes[use.1.position] :=
      Array.getElem?_eq_getElem hlt
    have hname : model.className use.1 = model.classes[use.1.position].name := by
      rw [className, htarget, Option.map_some, Option.getD_some]
    rw [hname]
    refine ⟨⟨use.2, node, hnode, rfl, use, huse, rfl, by rw [htarget, Option.map_some]⟩, ?_⟩
    rintro ⟨hallow, hshared⟩
    refine hcounts ⟨hallow, belongsTo_iff.mpr ⟨_, htarget, ?_⟩⟩
    exact ((h.package_eq_iff hnode (Array.getElem_mem hlt)).mpr hshared).symm
  · rintro ⟨⟨count, node, hnode, rfl, use, huse, -, hb⟩, hcounts⟩
    obtain ⟨target, htarget, rfl⟩ := Option.map_eq_some_iff.mp hb
    refine ⟨node, hnode, rfl, use, huse, ?_, ?_⟩
    · rw [className, htarget, Option.map_some, Option.getD_some]
    · rintro ⟨hallow, hbelongs⟩
      obtain ⟨other, hother, hpackage⟩ := belongsTo_iff.mp hbelongs
      obtain rfl := Option.some.inj (htarget.symm.trans hother)
      exact hcounts ⟨hallow,
        (h.package_eq_iff hnode (Array.mem_of_getElem? htarget)).mp hpackage.symm⟩

end Linked

/-! ### Smaller and larger models -/

/-- Whether all that one model says of packages, classes and uses is said by another. -/
structure Within (small large : Model) : Prop where
  packages : ∀ package ∈ small.packages, ∃ other ∈ large.packages, other.name = package.name
  classIn : ∀ c p, small.ClassIn c p → large.ClassIn c p
  classUses : ∀ c t, small.ClassUsesAny c t → large.ClassUsesAny c t

/-- A table of names has no more entries than one with all of its names. -/
theorem size_le_of_names {α : Type} {small large : Array α} {name : α → String}
    (hascending : IsAscending (small.toList.map name))
    (h : ∀ a ∈ small, ∃ b ∈ large, name b = name a) : small.size ≤ large.size := by
  have hsub : small.toList.map name ⊆ large.toList.map name := by
    intro n hn
    obtain ⟨a, ha, rfl⟩ := List.mem_map.mp hn
    obtain ⟨b, hb, hname⟩ := h a (Array.mem_toList_iff.mp ha)
    exact List.mem_map.mpr ⟨b, Array.mem_toList_iff.mpr hb, hname⟩
  have hle := (hascending.nodup.subperm hsub).length_le
  simpa using hle

namespace Within

variable {small large : Model} {a b c q : String}

theorem classUsesSome (h : small.Within large) (huses : small.ClassUsesSome c q) :
    large.ClassUsesSome c q := by
  obtain ⟨t, count, hin, huse⟩ := huses
  obtain ⟨count', huse'⟩ := h.classUses c t ⟨count, huse⟩
  exact ⟨t, count', h.classIn t q hin, huse'⟩

variable (hsmall : small.Linked) (hlarge : large.Linked) (h : small.Within large)
include hsmall hlarge h

theorem uses (huses : small.Uses a b) : large.Uses a b := by
  obtain ⟨hne, name, hin, hsome⟩ := hsmall.uses_iff_classes.mp huses
  exact hlarge.uses_iff_classes.mpr ⟨hne, name, h.classIn name a hin, h.classUsesSome hsome⟩

/-- The classes that bring a use about still do so. -/
theorem vias_subset {vias vias' : List String} (hvias : small.IsViaOf a b vias)
    (hvias' : large.IsViaOf a b vias') : vias ⊆ vias' := by
  obtain ⟨p, q, hp, hq, rfl⟩ := hvias
  obtain ⟨p', q', hp', hq', rfl⟩ := hvias'
  intro name hname
  obtain ⟨hin, hsome⟩ := (hsmall.mem_viaNames hp hq).mp hname
  exact (hlarge.mem_viaNames hp' hq').mpr ⟨h.classIn name a hin, h.classUsesSome hsome⟩

theorem dependsOn {scope : CycleScope} {allow : Bool} (hdepends : small.DependsOn scope allow a b) :
    large.DependsOn scope allow a b := by
  cases scope with
  | packages => exact h.uses hsmall hlarge hdepends
  | classes =>
      obtain ⟨hany, hcounts⟩ := hsmall.dependsOn_classes_iff.mp hdepends
      refine hlarge.dependsOn_classes_iff.mpr ⟨h.classUses a b hany, ?_⟩
      rintro ⟨hallow, p, hap, hbp⟩
      -- The packages of the two classes are known in the smaller model already.
      obtain ⟨count, node, hnode, rfl, use, huse, -, hb⟩ := hany
      obtain ⟨target, htarget, rfl⟩ := Option.map_eq_some_iff.mp hb
      obtain ⟨p₁, hp₁⟩ := hsmall.exists_classIn hnode
      obtain ⟨p₂, hp₂⟩ := hsmall.exists_classIn (Array.mem_of_getElem? htarget)
      obtain rfl := hlarge.classIn_unique (h.classIn _ _ hp₁) hap
      obtain rfl := hlarge.classIn_unique (h.classIn _ _ hp₂) hbp
      exact hcounts ⟨hallow, p₂, hp₁, hp₂⟩

/-- Names that depend on each other do so in the larger model, where they may be joined by more. -/
theorem exists_isCyclic {scope : CycleScope} {allow : Bool} {names : Set String}
    (hcyclic : small.IsCyclic scope allow names) :
    ∃ more, large.IsCyclic scope allow more ∧ names ⊆ more := by
  obtain ⟨hnontrivial, hreach, -⟩ := hcyclic
  have hle : small.DependsOn scope allow ≤ large.DependsOn scope allow :=
    fun _ _ hdepends => h.dependsOn hsmall hlarge hdepends
  exact exists_isCyclic_of_reach hnontrivial fun b hb c hc =>
    Relation.ReflTransGen.mono hle _ _ (hreach b hb c hc)

end Within

section Assemble

variable {filter : PackageFilter} {records : List ClassRecord} {sources : List SourceRecord}
  (more : List ClassRecord) (sources' : List SourceRecord)

theorem exists_class_append {node : ClassNode}
    (h : node ∈ (assemble filter records sources).classes) :
    ∃ other ∈ (assemble filter (records ++ more) sources').classes, other.name = node.name := by
  rw [exists_class_iff]
  rcases (exists_class_iff filter records sources).mp ⟨node, h, rfl⟩ with hdeclared | hmentioned
  · obtain ⟨record, hdeclared⟩ := Option.isSome_iff_exists.mp hdeclared
    refine Or.inl (Option.isSome_iff_exists.mpr ⟨record, ?_⟩)
    exact PackageFilter.declaration?_append_left hdeclared
  · exact Or.inr ⟨hmentioned.1, hmentioned.2.append_left more⟩

theorem exists_package_append {package : Package}
    (h : package ∈ (assemble filter records sources).packages) :
    ∃ other ∈ (assemble filter (records ++ more) sources').packages,
      other.name = package.name := by
  rw [exists_package_iff]
  rcases (exists_package_iff filter records sources).mp ⟨package, h, rfl⟩ with
    ⟨node, hnode, hfor⟩ | ⟨record, hrecord, hannotates⟩
  · obtain ⟨other, hother, hname⟩ := exists_class_append more sources' hnode
    refine Or.inl ⟨other, hother, ?_⟩
    rw [hname]
    exact hfor
  · exact Or.inr ⟨record, List.mem_append_left more hrecord, hannotates⟩

variable {more sources'}

/-- What is small enough with more records is small enough with fewer. -/
theorem indexed_of_append (h : (assemble filter (records ++ more) sources').Indexed) :
    (assemble filter records sources).Indexed :=
  Nat.le_trans (size_le_of_names (assemble_wellFormed filter records sources).packages_ascending
    fun _ => exists_package_append more sources') h

theorem classesIndexed_of_append
    (h : (assemble filter (records ++ more) sources').ClassesIndexed) :
    (assemble filter records sources).ClassesIndexed :=
  Nat.le_trans (size_le_of_names (assemble_wellFormed filter records sources).classes_ascending
    fun _ => exists_class_append more sources') h

/-- With more records the model says more. -/
theorem assemble_within
    (hclasses : (assemble filter (records ++ more) sources').ClassesIndexed)
    (hpackages : (assemble filter (records ++ more) sources').Indexed) :
    (assemble filter records sources).Within (assemble filter (records ++ more) sources') where
  packages _ := exists_package_append more sources'
  classIn := by
    intro c p hin
    obtain ⟨⟨node, hnode, rfl⟩, hfor⟩ := (assemble_classIn_iff (indexed_of_append hpackages)).mp hin
    exact (assemble_classIn_iff hpackages).mpr ⟨exists_class_append more sources' hnode, hfor⟩
  classUses := by
    intro c t hany
    obtain ⟨hignored, record, count, hdeclared, hmem, hpos⟩ :=
      (classUsesAny_iff (classesIndexed_of_append hclasses)).mp hany
    exact (classUsesAny_iff hclasses).mpr ⟨hignored, record, count,
      PackageFilter.declaration?_append_left hdeclared, hmem, hpos⟩

end Assemble

end Model

end PackageAudit
