/-
A model that passes the check of its size has an exact reference for every entry.

Before records are put together they are counted, and what is counted is raw: all records, whether
they declare anything or not, all mentions, however often a name is repeated, and the sources.
What has to fit are two tables of names without repetitions.  The bound that links them is the
weight of what has been declared so far: its records, the packages with annotations and the
mentions of its records.

A record adds at most one to the weight for itself, as a class or as the annotations of a package
but never as both, and one for each of its mentions.  So the weight of all records is within the
count.  The class table is no longer than the records and the mentions.  The package table may be
longer than the class table, since annotations make packages known that hold no class; but those
packages are in the weight as well.
-/
import PackageAudit.Inputs.Build
import PackageAudit.Proofs.Model.Assembly
import PackageAudit.Proofs.Traversal

namespace PackageAudit

/-! ### Lengths of ascending lists -/

namespace Ascending

variable {α β : Type} [Ord α]

theorem length_insert_le (a : α) (items : List α) : (insert a items).length ≤ items.length + 1 := by
  induction items with
  | nil => simp [insert]
  | cons b rest ih =>
      unfold insert
      split <;> simp [ih]

theorem length_union_le (set items : List α) :
    (union set items).length ≤ set.length + items.length := by
  unfold union
  induction items generalizing set with
  | nil => simp
  | cons a rest ih =>
      have hinsert := length_insert_le a set
      have hrest := ih (insert a set)
      rw [List.foldl_cons, List.length_cons]
      omega

theorem length_ofList_le (items : List α) : (ofList items).length ≤ items.length := by
  have h := length_union_le [] items
  rwa [List.length_nil, Nat.zero_add] at h

theorem length_alter_le (key : α) (update : Option β → β) (table : List (α × β)) :
    (alter key update table).length ≤ table.length + 1 := by
  induction table with
  | nil => simp [alter]
  | cons entry rest ih =>
      unfold alter
      split <;> simp [ih]

/-- A new value is put into a table, or the table stays as it is. -/
theorem insertNew_perm (key : α) (value : β) (table : List (α × β)) :
    insertNew key value table = table
      ∨ (insertNew key value table).Perm ((key, value) :: table) := by
  unfold insertNew
  induction table with
  | nil => exact Or.inr (List.Perm.refl _)
  | cons entry rest ih =>
      obtain ⟨k, old⟩ := entry
      unfold alter
      split
      · exact Or.inr (List.Perm.refl _)
      · exact Or.inl rfl
      · rcases ih with heq | hperm
        · rw [heq]
          exact Or.inl rfl
        · exact Or.inr ((hperm.cons _).trans (List.Perm.swap _ _ _))

end Ascending

open Ascending

/-! ### The weight of declarations -/

namespace Declarations

/-- All mentions of the declared records. -/
def mentions (declarations : Declarations) : List (String × UInt32) :=
  declarations.records.flatMap fun entry => entry.2.references

/-- How many entries the declarations can make: one for each record, one for each package with
annotations and one for each mention. -/
def weight (declarations : Declarations) : Nat :=
  declarations.records.length + declarations.packageAnnotations.length
    + declarations.mentions.length

variable (filter : PackageFilter) (declarations : Declarations) (records : List ClassRecord)

/-- A record weighs one for itself and one for each of its mentions, or less. -/
theorem weight_add_le (record : ClassRecord) :
    (declarations.add filter record).weight
      ≤ declarations.weight + (1 + record.references.length) := by
  unfold add
  split
  · omega
  · split
    · -- Annotations of a package, which may be known already; the mentions are left aside.
      have hlength := length_alter_le (filter.packageFor record.name)
        (fun known => union (known.getD []) record.annotations) declarations.packageAnnotations
      simp only [weight, mentions]
      omega
    · -- A class: the first record of a name counts with its mentions, and later ones do not.
      simp only [weight, mentions]
      rcases insertNew_perm record.name record declarations.records with heq | hperm
      · rw [heq]
        omega
      · have hlength := hperm.length_eq
        have hmentions := (hperm.flatMap_right fun entry => entry.2.references).length_eq
        rw [List.length_cons] at hlength
        simp only [List.flatMap_cons, List.length_append] at hmentions
        omega

theorem weight_foldl_le :
    (records.foldl (add filter) declarations).weight
      ≤ declarations.weight + (records.length + (records.flatMap (·.references)).length) := by
  induction records generalizing declarations with
  | nil => simp
  | cons record rest ih =>
      have hrecord := weight_add_le filter declarations record
      have hrest := ih (declarations.add filter record)
      rw [List.foldl_cons, List.length_cons, List.flatMap_cons, List.length_append]
      omega

theorem weight_ofRecords_le :
    (ofRecords filter records).weight
      ≤ records.length + (records.flatMap (·.references)).length := by
  have h := weight_foldl_le filter {} records
  rwa [show weight {} = 0 from rfl, Nat.zero_add] at h

/-! ### The tables -/

theorem length_classNames_le :
    (declarations.classNames filter).length
      ≤ declarations.records.length + declarations.mentions.length := by
  have hnames : declarations.classNames filter = union (declarations.records.map Prod.fst)
      ((declarations.mentions.map Prod.fst).filter fun name => !filter.isIgnored name) := by
    rw [mentions, List.map_flatMap]
    rfl
  have hunion := length_union_le (declarations.records.map Prod.fst)
    ((declarations.mentions.map Prod.fst).filter fun name => !filter.isIgnored name)
  have hfilter := List.length_filter_le (fun name => !filter.isIgnored name)
    (declarations.mentions.map Prod.fst)
  rw [List.length_map] at hunion hfilter
  rw [hnames]
  exact Nat.le_trans hunion (Nat.add_le_add_left hfilter _)

theorem length_packageNames_le (classNames : List String) :
    (declarations.packageNames filter classNames).length
      ≤ classNames.length + declarations.packageAnnotations.length := by
  have hunion := length_union_le (ofList (classNames.map filter.packageFor))
    (declarations.packageAnnotations.map Prod.fst)
  have hnames := length_ofList_le (classNames.map filter.packageFor)
  rw [List.length_map] at hunion hnames
  exact Nat.le_trans hunion (Nat.add_le_add_right hnames _)

end Declarations

namespace Model

variable (filter : PackageFilter) (records : List ClassRecord) (sources : List SourceRecord)

/-- Both tables are within the weight of what the records declare. -/
theorem assemble_size_le :
    (assemble filter records sources).classes.size
        ≤ (Declarations.ofRecords filter records).weight
      ∧ (assemble filter records sources).packages.size
        ≤ (Declarations.ofRecords filter records).weight := by
  have hclasses := Declarations.length_classNames_le filter (Declarations.ofRecords filter records)
  have hpackages := Declarations.length_packageNames_le filter
    (Declarations.ofRecords filter records)
    ((Declarations.ofRecords filter records).classNames filter)
  rw [assemble_classes_size, assemble_packages_size]
  unfold Declarations.weight
  omega

end Model

/-! ### The check -/

namespace Contents

theorem bound_eq (contents : Contents) :
    contents.bound = contents.classes.length + contents.sources.length
      + (contents.classes.flatMap (·.references)).length := by
  have hfold : ∀ (records : List ClassRecord) (n : Nat),
      records.foldl (fun n record => n + record.references.length) n
        = n + (records.flatMap (·.references)).length := by
    intro records
    induction records with
    | nil => simp
    | cons record rest ih =>
        intro n
        rw [List.foldl_cons, ih, List.flatMap_cons, List.length_append, Nat.add_assoc]
  exact hfold _ _

theorem checkCapacity_eq_ok_iff {contents : Contents} :
    contents.checkCapacity = .ok () ↔ contents.bound ≤ greatestPosition := by
  unfold checkCapacity
  split <;> simp [*]

/-- What passes the check makes tables within the range of references. -/
theorem size_le_of_checkCapacity {contents : Contents} (h : contents.checkCapacity = .ok ())
    (filter : PackageFilter) :
    (Model.assemble filter contents.classes contents.sources).classes.size ≤ greatestPosition
      ∧ (Model.assemble filter contents.classes contents.sources).packages.size
        ≤ greatestPosition := by
  have hbound := checkCapacity_eq_ok_iff.mp h
  have hweight := Declarations.weight_ofRecords_le filter contents.classes
  have hsize := Model.assemble_size_le filter contents.classes contents.sources
  rw [bound_eq] at hbound
  omega

end Contents

namespace Model

/-- References that are exact.  Each entry of a table has one of its own that leads back to it, and
the references that the entries hold were all made for entries of the tables. -/
structure HasExactIds (filter : PackageFilter) (records : List ClassRecord) (model : Model) :
    Prop where
  classes_le : model.classes.size ≤ greatestPosition
  packages_le : model.packages.size ≤ greatestPosition
  class_position : ∀ i < model.classes.size, (ClassId.ofPosition i).position = i
  package_position : ∀ i < model.packages.size, (PackageId.ofPosition i).position = i
  class_ne : ∀ i < model.classes.size, ∀ j < model.classes.size, i ≠ j →
    ClassId.ofPosition i ≠ ClassId.ofPosition j
  package_ne : ∀ i < model.packages.size, ∀ j < model.packages.size, i ≠ j →
    PackageId.ofPosition i ≠ PackageId.ofPosition j
  class_found : ∀ i node, model.classes[i]? = some node →
    model.classId? node.name = some (ClassId.ofPosition i)
      ∧ model.class? (ClassId.ofPosition i) = some node
  package_found : ∀ i package, model.packages[i]? = some package →
    model.packageId? package.name = some (PackageId.ofPosition i)
      ∧ model.package? (PackageId.ofPosition i) = some package
  /-- A class refers to the package that its name puts it into. -/
  owner : ∀ node ∈ model.classes, ∃ i package, model.packages[i]? = some package
    ∧ package.name = filter.packageFor node.name ∧ node.package = PackageId.ofPosition i
  /-- A class refers to classes that its declaration mentions. -/
  used : ∀ node ∈ model.classes, ∀ use ∈ node.uses, ∃ record i target,
    filter.declaration? records node.name = some record ∧ model.classes[i]? = some target
      ∧ target.name ∈ record.references.map Prod.fst ∧ use.1 = ClassId.ofPosition i
  /-- A package refers to the classes that refer to it. -/
  members : ∀ i package, model.packages[i]? = some package → ∀ c, c ∈ package.classes ↔
    ∃ j node, model.classes[j]? = some node ∧ node.package = PackageId.ofPosition i
      ∧ c = ClassId.ofPosition j

variable {filter : PackageFilter} {records : List ClassRecord} {sources : List SourceRecord}

theorem classId?_eq {model : Model} (h : model.WellFormed) {i : Nat} {node : ClassNode}
    (hget : model.classes[i]? = some node) :
    model.classId? node.name = some (ClassId.ofPosition i) := by
  have hname : (model.classes.toList.map (·.name))[i]? = some node.name := by
    rw [List.getElem?_map, Array.getElem?_toList, hget, Option.map_some]
  rw [classId?_eq_position?, (position?_eq_some_iff h.classes_ascending).mpr hname, Option.map_some]

/-- A class refers to a position of the class table at which a mentioned name stands. -/
theorem exists_of_mem_uses_nodeOf {name : String} {use : ClassId × UInt32}
    (h : use ∈ (nodeOf filter records sources name).uses) : ∃ record i target,
      filter.declaration? records name = some record
        ∧ (assemble filter records sources).classes[i]? = some target
        ∧ target.name ∈ record.references.map Prod.fst ∧ use.1 = ClassId.ofPosition i := by
  unfold nodeOf Declarations.node at h
  rw [Declarations.find?_ofRecords] at h
  cases hdeclaration : filter.declaration? records name with
  | none =>
      rw [hdeclaration] at h
      exact absurd h List.not_mem_nil
  | some record =>
      rw [hdeclaration] at h
      have hkey := mem_keys_ofPairs.mp (List.mem_map_of_mem h)
      obtain ⟨pair, hpair, hfst⟩ := List.mem_map.mp hkey
      obtain ⟨⟨target, count⟩, htarget, hsome⟩ := List.mem_filterMap.mp hpair
      obtain ⟨i, hi, rfl⟩ := Option.map_eq_some_iff.mp hsome
      refine ⟨record, i, nodeOf filter records sources target, rfl, ?_, ?_, hfst.symm⟩
      · rw [assemble_classes_getElem?, position?_eq_some hi, Option.map_some]
      · rw [nodeOf_name]
        exact List.mem_map_of_mem (List.mem_of_mem_filter htarget)

/-- Tables within the range of references have exact ones. -/
theorem hasExactIds_of_size_le
    (hclasses : (assemble filter records sources).classes.size ≤ greatestPosition)
    (hpackages : (assemble filter records sources).packages.size ≤ greatestPosition) :
    HasExactIds filter records (assemble filter records sources) := by
  have hwell := assemble_wellFormed filter records sources
  have hclassIdx : (assemble filter records sources).ClassesIndexed := Nat.le_succ_of_le hclasses
  have hpackageIdx : (assemble filter records sources).Indexed := Nat.le_succ_of_le hpackages
  have hclassPos : ∀ i < (assemble filter records sources).classes.size,
      (ClassId.ofPosition i).position = i := fun i hi => hclassIdx.position_ofPosition hi
  have hpackagePos : ∀ i < (assemble filter records sources).packages.size,
      (PackageId.ofPosition i).position = i :=
    fun i hi => hpackageIdx.position_ofPosition (Array.getElem?_eq_getElem hi)
  refine ⟨hclasses, hpackages, hclassPos, hpackagePos, ?_, ?_, ?_, ?_, ?_, ?_, ?_⟩
  · intro i hi j hj hne heq
    rw [← hclassPos i hi, ← hclassPos j hj, heq] at hne
    exact hne rfl
  · intro i hi j hj hne heq
    rw [← hpackagePos i hi, ← hpackagePos j hj, heq] at hne
    exact hne rfl
  · intro i node hget
    refine ⟨classId?_eq hwell hget, ?_⟩
    rw [class?, hclassPos i (Array.getElem?_eq_some_iff.mp hget).1]
    exact hget
  · intro i package hget
    refine ⟨packageId?_eq hwell hget, ?_⟩
    rw [package?, hpackagePos i (Array.getElem?_eq_some_iff.mp hget).1]
    exact hget
  · intro node hnode
    obtain ⟨package, hpackage, hname⟩ := Option.map_eq_some_iff.mp
      (package_of_class filter records sources hpackageIdx hnode)
    exact ⟨_, package, hpackage, hname, node.package.ofPosition_position.symm⟩
  · intro node hnode use huse
    rw [(eq_nodeOf_of_mem filter records sources hnode).1] at huse
    exact exists_of_mem_uses_nodeOf huse
  · intro i package hget c
    -- Members are found by position, and here a position belongs to one reference only.
    have hi := hpackagePos i (Array.getElem?_eq_some_iff.mp hget).1
    rw [eq_derive_of_getElem? filter records sources hget, mem_classes_derive]
    refine exists_congr fun j => exists_congr fun node => ?_
    have hposition : node.package.position = i ↔ node.package = PackageId.ofPosition i := by
      refine ⟨fun h => PackageId.ext_position (h.trans hi.symm), fun h => ?_⟩
      rw [h, hi]
    rw [hposition, eq_comm (a := c)]

end Model

/-- What passes the check of its size is put together into a model with exact references. -/
theorem Contents.assemble_hasExactIds (contents : Contents) (filter : PackageFilter)
    (h : contents.checkCapacity = .ok ()) :
    (Model.assemble filter contents.classes contents.sources).HasExactIds filter
      contents.classes := by
  obtain ⟨hclasses, hpackages⟩ := size_le_of_checkCapacity h filter
  exact Model.hasExactIds_of_size_le hclasses hpackages

/-- A class in a package of its own, and annotations of packages that hold no class. -/
def annotatedContents : Contents where
  classes := [{ name := "app.Main", references := [("app.Main", 1), ("app.Part", 2)] },
    { name := "app.Main" }, { name := "doc.package-info" }, { name := "lib.package-info" }]
  sources := [{ directory := "app", fileName := "Main.java", counts := {} }]

/-- There can be more packages than classes. -/
theorem annotatedContents_hasExactIds :
    annotatedContents.checkCapacity = .ok ()
      ∧ (Model.assemble {} annotatedContents.classes annotatedContents.sources).classes.size = 2
      ∧ (Model.assemble {} annotatedContents.classes annotatedContents.sources).packages.size = 3
      ∧ (Model.assemble {} annotatedContents.classes annotatedContents.sources).HasExactIds {}
        annotatedContents.classes := by
  have hcheck : annotatedContents.checkCapacity = .ok () := by decide +kernel
  exact ⟨hcheck, by decide +kernel, by decide +kernel,
    annotatedContents.assemble_hasExactIds {} hcheck⟩

/-- References tell the entries of a model apart that was built from files. -/
theorem ModelSettings.indexed_of_buildWith {format : ArchiveFormat} {settings : ModelSettings}
    {files : Files} {outcome : BuildOutcome} (h : settings.buildWith format files = .ok outcome) :
    outcome.model.ClassesIndexed ∧ outcome.model.Indexed := by
  simp only [ModelSettings.buildWith, bind_eq_ok_iff] at h
  obtain ⟨inputs, -, parts, -, _, hcheck, houtcome⟩ := h
  obtain rfl := Except.ok.inj houtcome
  obtain ⟨hclasses, hpackages⟩ := Contents.size_le_of_checkCapacity hcheck
    (PackageFilter.ofStems settings.ignorePackages settings.mergePackages)
  exact ⟨Nat.le_succ_of_le hclasses, Nat.le_succ_of_le hpackages⟩

end PackageAudit
