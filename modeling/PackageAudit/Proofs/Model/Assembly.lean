/-
What an assembled model holds.

A model is built in passes, and each pass turns names into positions of a table that an earlier
one made: the package of a class is a position among the packages, the classes of a package are
positions among the classes.  Here the passes are put together and the positions taken out
again.  In the end a model says, by name, exactly what the records declare and mention: the
classes, the packages they go into, which of them were analyzed, and the sizes.

Positions are 32-bit numbers.  All of this therefore needs that there are no more classes and
packages than such numbers, which is what building a model from files makes sure of.
-/
import PackageAudit.Proofs.Model.Declarations
import PackageAudit.Proofs.Model.Names

namespace PackageAudit

open Ascending

/-! ### Positions and names -/

section Positions

variable {names : List String} {name : String} {i : Nat}

/-- References that tell all positions of a table apart lead back to the position. -/
theorem map_position?_eq_some_iff {ι : Type} {ofPosition : Nat → ι} {position : ι → Nat}
    (h : IsAscending names) (hround : ∀ n < names.length, position (ofPosition n) = n) :
    ((position? names name).map ofPosition).map position = some i ↔ names[i]? = some name := by
  rw [Option.map_map, Option.map_eq_some_iff, ← position?_eq_some_iff h]
  refine ⟨?_, ?_⟩
  · rintro ⟨n, hn, hi⟩
    have hback : position (ofPosition n) = n := hround n (position?_lt hn)
    rw [hn, ← hi, Function.comp_apply, hback]
  · intro hi
    exact ⟨i, hi, hround i (position?_lt hi)⟩

end Positions

namespace Model

variable {model : Model} {name : String} {i : Nat}

/-- Whether references tell all classes apart. -/
def ClassesIndexed (model : Model) : Prop := model.classes.size ≤ greatestPosition + 1

theorem ClassesIndexed.position_ofPosition (h : model.ClassesIndexed)
    (hi : i < model.classes.size) : (ClassId.ofPosition i).position = i := by
  have hle : i ≤ greatestPosition := Nat.le_of_lt_succ (Nat.lt_of_lt_of_le hi h)
  rw [ClassId.position_ofPosition, Nat.min_eq_left hle]

theorem classId?_position (h : model.WellFormed) (hidx : model.ClassesIndexed) :
    (model.classId? name).map ClassId.position = some i ↔
      (model.classes[i]?).map (·.name) = some name := by
  have hround : ∀ n < (model.classes.toList.map (·.name)).length,
      (ClassId.ofPosition n).position = n := by
    intro n hn
    rw [List.length_map, Array.length_toList] at hn
    exact hidx.position_ofPosition hn
  rw [classId?_eq_position?, map_position?_eq_some_iff h.classes_ascending hround,
    List.getElem?_map, Array.getElem?_toList]

theorem packageId?_position (h : model.WellFormed) (hidx : model.Indexed) :
    (model.packageId? name).map PackageId.position = some i ↔
      (model.packages[i]?).map (·.name) = some name := by
  have hround : ∀ n < (model.packages.toList.map (·.name)).length,
      (PackageId.ofPosition n).position = n := by
    intro n hn
    rw [List.length_map, Array.length_toList] at hn
    exact hidx.position_ofPosition (Array.getElem?_eq_getElem hn)
  rw [packageId?_eq_position?, map_position?_eq_some_iff h.packages_ascending hround,
    List.getElem?_map, Array.getElem?_toList]

/-- The classes of a package. -/
def members (model : Model) (package : Package) : List ClassNode :=
  package.classes.filterMap model.class?

end Model

/-! ### The node of a class -/

section Nodes

variable (filter : PackageFilter) (records : List ClassRecord) (sources : List SourceRecord)

/-- The node of a class in the model of some records. -/
def Model.nodeOf (name : String) : ClassNode :=
  (Declarations.ofRecords filter records).node filter
    ((Declarations.ofRecords filter records).classNames filter)
    ((Declarations.ofRecords filter records).packageNames filter
      ((Declarations.ofRecords filter records).classNames filter)) sources name

theorem Model.nodeOf_name (name : String) :
    (Model.nodeOf filter records sources name).name = name :=
  Declarations.node_name filter sources (Declarations.named_ofRecords filter records)

theorem Model.nodeOf_analyzed (name : String) :
    (Model.nodeOf filter records sources name).analyzed
      = (filter.declaration? records name).isSome := by
  unfold Model.nodeOf Declarations.node
  rw [Declarations.find?_ofRecords]
  cases filter.declaration? records name <;> rfl

theorem Model.assemble_classes_getElem? (i : Nat) :
    (Model.assemble filter records sources).classes[i]?
      = (((Declarations.ofRecords filter records).classNames filter)[i]?).map
          (Model.nodeOf filter records sources) := by
  rw [Model.assemble_classes, List.getElem?_toArray, List.getElem?_map]
  rfl

/-- Each class is the node of its name. -/
theorem Model.eq_nodeOf_of_mem {node : ClassNode}
    (h : node ∈ (Model.assemble filter records sources).classes) :
    node = Model.nodeOf filter records sources node.name
      ∧ node.name ∈ (Declarations.ofRecords filter records).classNames filter := by
  obtain ⟨name, hname, rfl⟩ := Model.exists_name_of_mem_classes filter records sources h
  have heq := Model.nodeOf_name filter records sources name
  unfold Model.nodeOf at heq
  rw [heq]
  exact ⟨rfl, hname⟩

theorem Model.nodeOf_mem {name : String}
    (h : name ∈ (Declarations.ofRecords filter records).classNames filter) :
    Model.nodeOf filter records sources name
      ∈ (Model.assemble filter records sources).classes := by
  rw [Model.assemble_classes, List.mem_toArray]
  exact List.mem_map_of_mem h

/-- The names of the classes are what is declared and what is mentioned. -/
theorem Model.exists_class_iff {name : String} :
    (∃ node ∈ (Model.assemble filter records sources).classes, node.name = name) ↔
      (filter.declaration? records name).isSome = true
        ∨ filter.isIgnored name = false ∧ filter.Mentioned records name := by
  rw [← Declarations.mem_classNames]
  refine ⟨?_, ?_⟩
  · rintro ⟨node, hnode, rfl⟩
    exact (Model.eq_nodeOf_of_mem filter records sources hnode).2
  · intro hname
    exact ⟨_, Model.nodeOf_mem filter records sources hname,
      Model.nodeOf_name filter records sources name⟩

theorem Model.analyzed_iff {node : ClassNode}
    (h : node ∈ (Model.assemble filter records sources).classes) :
    node.analyzed = true ↔ (filter.declaration? records node.name).isSome = true := by
  rw [(Model.eq_nodeOf_of_mem filter records sources h).1, Model.nodeOf_analyzed,
    Model.nodeOf_name]

/-- A class refers to the position of its package. -/
theorem Model.nodeOf_package {name : String}
    (h : name ∈ (Declarations.ofRecords filter records).classNames filter) :
    ∃ i, (Model.nodeOf filter records sources name).package = PackageId.ofPosition i
      ∧ ((Declarations.ofRecords filter records).packageNames filter
          ((Declarations.ofRecords filter records).classNames filter))[i]?
        = some (filter.packageFor name) := by
  have hmem : filter.packageFor name ∈ (Declarations.ofRecords filter records).packageNames filter
      ((Declarations.ofRecords filter records).classNames filter) :=
    Declarations.packageFor_mem h
  obtain ⟨i, hi⟩ := exists_position? hmem
  refine ⟨i, ?_, position?_eq_some hi⟩
  unfold Model.nodeOf Declarations.node
  rw [hi]
  cases find? name (Declarations.ofRecords filter records).records <;> rfl

/-- The package that a class refers to is the one that its name puts it into. -/
theorem Model.package_of_class (hidx : (Model.assemble filter records sources).Indexed)
    {node : ClassNode} (h : node ∈ (Model.assemble filter records sources).classes) :
    ((Model.assemble filter records sources).package? node.package).map (·.name)
      = some (filter.packageFor node.name) := by
  obtain ⟨hnode, hname⟩ := Model.eq_nodeOf_of_mem filter records sources h
  obtain ⟨i, hpackage, hi⟩ := Model.nodeOf_package filter records sources hname
  rw [← hnode] at hpackage
  have hlt := (List.getElem?_eq_some_iff.mp hi).1
  rw [← Model.assemble_packages_size filter records sources] at hlt
  have hpos : node.package.position = i := by
    rw [hpackage]
    exact hidx.position_ofPosition (Array.getElem?_eq_getElem hlt)
  rw [← hi, ← Model.assemble_packageNames filter records sources, List.getElem?_map,
    Array.getElem?_toList, Model.package?, hpos]

end Nodes

/-! ### Packages -/

section Packages

variable (filter : PackageFilter) (records : List ClassRecord) (sources : List SourceRecord)

theorem Model.eq_derive_of_getElem? {i : Nat} {package : Package}
    (h : (Model.assemble filter records sources).packages[i]? = some package) :
    package = Package.derive (Declarations.ofRecords filter records)
      (Model.assemble filter records sources).classes package.name i := by
  obtain ⟨name, rfl⟩ := Model.assemble_packages_getElem? filter records sources h
  rfl

/-- The names of the packages are those of the classes and those that have annotations. -/
theorem Model.exists_package_iff {name : String} :
    (∃ package ∈ (Model.assemble filter records sources).packages, package.name = name) ↔
      (∃ node ∈ (Model.assemble filter records sources).classes,
          filter.packageFor node.name = name)
        ∨ ∃ record ∈ records, filter.Annotates record name := by
  have hnames : (∃ package ∈ (Model.assemble filter records sources).packages,
      package.name = name) ↔ name ∈ (Model.assemble filter records sources).packages.toList.map
        (·.name) := by
    simp only [List.mem_map, Array.mem_toList_iff]
  rw [hnames, Model.assemble_packageNames, Declarations.mem_packageNames]
  refine or_congr_left ⟨?_, ?_⟩
  · rintro ⟨className, hmem, hfor⟩
    refine ⟨_, Model.nodeOf_mem filter records sources hmem, ?_⟩
    rw [Model.nodeOf_name]
    exact hfor
  · rintro ⟨node, hnode, hfor⟩
    exact ⟨node.name, (Model.eq_nodeOf_of_mem filter records sources hnode).2, hfor⟩

/-- A class is listed by the package that it refers to, and by no other. -/
theorem Model.mem_classes_iff (hidx : (Model.assemble filter records sources).ClassesIndexed)
    {c : ClassId} {node : ClassNode} {p : PackageId} {package : Package}
    (hc : (Model.assemble filter records sources).class? c = some node)
    (hp : (Model.assemble filter records sources).package? p = some package) :
    c ∈ package.classes ↔ node.package = p := by
  rw [Model.eq_derive_of_getElem? filter records sources hp, mem_classes_derive]
  refine ⟨?_, ?_⟩
  · rintro ⟨i, other, hget, hpos, rfl⟩
    -- What was put into the list at position `i` is what the reference finds there.
    have hi := hidx.position_ofPosition (Array.getElem?_eq_some_iff.mp hget).1
    rw [Model.class?, hi, hget] at hc
    obtain rfl := Option.some.inj hc
    exact PackageId.ext_position hpos
  · intro hpackage
    have hc' : (Model.assemble filter records sources).classes[c.position]? = some node := hc
    have hround := hidx.position_ofPosition (Array.getElem?_eq_some_iff.mp hc').1
    exact ⟨c.position, node, hc', by rw [hpackage], ClassId.ext_position hround⟩

theorem Model.exists_class_of_mem_classes
    (hidx : (Model.assemble filter records sources).ClassesIndexed) {package : Package}
    (h : package ∈ (Model.assemble filter records sources).packages) {c : ClassId}
    (hc : c ∈ package.classes) :
    ∃ node, (Model.assemble filter records sources).class? c = some node := by
  obtain ⟨i, hget⟩ := Array.mem_iff_getElem?.mp h
  rw [Model.eq_derive_of_getElem? filter records sources hget, mem_classes_derive] at hc
  obtain ⟨j, node, hnode, -, rfl⟩ := hc
  refine ⟨node, ?_⟩
  rw [Model.class?, hidx.position_ofPosition (Array.getElem?_eq_some_iff.mp hnode).1]
  exact hnode

/-- Positions along a table increase. -/
theorem pairwise_zipIdx_ofPosition {classes : Array ClassNode}
    (h : classes.size ≤ greatestPosition + 1) :
    classes.toList.zipIdx.Pairwise fun a b =>
      (ClassId.ofPosition a.2).position < (ClassId.ofPosition b.2).position := by
  refine List.pairwise_iff_getElem.mpr ?_
  intro i j hi hj hij
  rw [List.length_zipIdx, Array.length_toList] at hj
  rw [List.getElem_zipIdx, List.getElem_zipIdx, ClassId.position_ofPosition,
    ClassId.position_ofPosition]
  omega

theorem Model.classes_sorted (hidx : (Model.assemble filter records sources).ClassesIndexed)
    {package : Package} (h : package ∈ (Model.assemble filter records sources).packages) :
    package.classes.Pairwise fun c d => c.position < d.position := by
  obtain ⟨i, hget⟩ := Array.mem_iff_getElem?.mp h
  rw [Model.eq_derive_of_getElem? filter records sources hget]
  exact List.pairwise_map.mpr ((pairwise_zipIdx_ofPosition hidx).filter _)

/-- Looking the classes of a package up gives the nodes that were put into it. -/
theorem filterMap_classes_derive {declarations : Declarations} {classes : Array ClassNode}
    (h : classes.size ≤ greatestPosition + 1) (name : String) (position : Nat) :
    (Package.derive declarations classes name position).classes.filterMap
        (fun c => classes[c.position]?)
      = (classes.toList.zipIdx.filter fun (node, _) => node.package.position == position).map
          Prod.fst := by
  show List.filterMap _ (List.map _ _) = _
  rw [List.filterMap_map]
  refine List.filterMap_eq_map_iff_forall_eq_some.mpr ?_
  intro entry hentry
  obtain ⟨node, i⟩ := entry
  have hget := List.mem_zipIdx_iff_getElem?.mp (List.mem_of_mem_filter hentry)
  rw [Array.getElem?_toList] at hget
  have hi : i < classes.size := (Array.getElem?_eq_some_iff.mp hget).1
  have hround : (ClassId.ofPosition i).position = i := by
    rw [ClassId.position_ofPosition]
    omega
  show classes[(ClassId.ofPosition i).position]? = some node
  rw [hround]
  exact hget

/-- The classes that refer to the package at a position. -/
def Model.owned (model : Model) (position : Nat) : List ClassNode :=
  model.classes.toList.filter fun node => node.package.position == position

theorem Model.map_fst_eq_owned (model : Model) (position : Nat) :
    (model.classes.toList.zipIdx.filter fun (node, _) => node.package.position == position).map
      Prod.fst = model.owned position := by
  unfold Model.owned
  have hfilter := List.filter_map (f := Prod.fst)
    (p := fun node : ClassNode => node.package.position == position)
    (l := model.classes.toList.zipIdx)
  rw [List.zipIdx_map_fst] at hfilter
  exact hfilter.symm

/-- Following the references of a package gives the classes that refer to it. -/
theorem Model.members_eq_owned (hidx : (Model.assemble filter records sources).ClassesIndexed)
    {i : Nat} {package : Package}
    (h : (Model.assemble filter records sources).packages[i]? = some package) :
    (Model.assemble filter records sources).members package
      = (Model.assemble filter records sources).owned i := by
  have hderive := Model.eq_derive_of_getElem? filter records sources h
  unfold Model.members
  rw [hderive, ← Model.map_fst_eq_owned]
  exact filterMap_classes_derive hidx _ _

theorem Model.sizes_eq_ofMembers {i : Nat} {package : Package}
    (h : (Model.assemble filter records sources).packages[i]? = some package) :
    package.sizes = PackageSizes.ofMembers ((Model.assemble filter records sources).owned i) := by
  rw [Model.eq_derive_of_getElem? filter records sources h, ← Model.map_fst_eq_owned]
  rfl

theorem Model.analyzed_eq_any {i : Nat} {package : Package}
    (h : (Model.assemble filter records sources).packages[i]? = some package) :
    package.analyzed
      = ((find? package.name (Declarations.ofRecords filter records).packageAnnotations).isSome
        || ((Model.assemble filter records sources).owned i).any (·.analyzed)) := by
  rw [Model.eq_derive_of_getElem? filter records sources h, ← Model.map_fst_eq_owned,
    List.any_map]
  rfl

theorem Model.annotations_eq {package : Package}
    (h : package ∈ (Model.assemble filter records sources).packages) :
    package.annotations = (Declarations.ofRecords filter records).annotations package.name := by
  obtain ⟨i, hget⟩ := Array.mem_iff_getElem?.mp h
  rw [Model.eq_derive_of_getElem? filter records sources hget]
  rfl

/-- The classes that refer to a package are those that the filter puts into it. -/
theorem Model.owned_eq_filter (hidx : (Model.assemble filter records sources).Indexed) {i : Nat}
    {package : Package}
    (h : (Model.assemble filter records sources).packages[i]? = some package) :
    (Model.assemble filter records sources).owned i
      = (Model.assemble filter records sources).classes.toList.filter
          fun node => filter.packageFor node.name == package.name := by
  unfold Model.owned
  apply List.filter_congr
  intro node hnode
  have hname := Model.package_of_class filter records sources hidx (Array.mem_toList_iff.mp hnode)
  have hnames : ∀ j : Nat,
      ((Model.assemble filter records sources).packages.toList.map Package.name)[j]?
        = ((Model.assemble filter records sources).packages[j]?).map Package.name := by
    intro j
    rw [List.getElem?_map, Array.getElem?_toList]
  rw [Bool.eq_iff_iff, beq_iff_eq, beq_iff_eq]
  refine ⟨?_, ?_⟩
  · intro hpos
    rw [Model.package?, hpos, h] at hname
    exact (Option.some.inj hname).symm
  · intro hfor
    apply (Model.assemble_wellFormed filter records sources).packages_ascending.getElem?_inj
      (a := package.name)
    · rw [hnames, ← hfor]
      exact hname
    · rw [hnames, h, Option.map_some]

/-- A package was analyzed if one of its classes was, or its annotations were. -/
theorem Model.package_analyzed_iff
    (hidx : (Model.assemble filter records sources).ClassesIndexed) {package : Package}
    (h : package ∈ (Model.assemble filter records sources).packages) :
    package.analyzed = true ↔
      (∃ node ∈ (Model.assemble filter records sources).members package, node.analyzed = true)
        ∨ ∃ record ∈ records, filter.Annotates record package.name := by
  obtain ⟨i, hget⟩ := Array.mem_iff_getElem?.mp h
  rw [Model.analyzed_eq_any filter records sources hget, Bool.or_eq_true,
    Declarations.isSome_find?_packageAnnotations, or_comm, List.any_eq_true,
    Model.members_eq_owned filter records sources hidx hget]

/-! ### Sizes -/

/-- The sum of the sizes of some classes. -/
def ClassNode.sum (size : ClassNode → UInt64) (nodes : List ClassNode) : Nat :=
  nodes.foldr (fun node total => (size node).toNat + total) 0

/-- Adding sizes up one after the other gives their sum, as far as it fits into 64 bits. -/
theorem foldl_add_size (size : ClassNode → UInt64) (nodes : List ClassNode) (start : UInt64) :
    nodes.foldl (fun total node => total + size node) start
      = start + UInt64.ofNat (ClassNode.sum size nodes) := by
  induction nodes generalizing start with
  | nil => simp [ClassNode.sum]
  | cons node rest ih =>
      have hsum : ClassNode.sum size (node :: rest)
          = (size node).toNat + ClassNode.sum size rest := rfl
      rw [List.foldl_cons, ih, hsum, UInt64.ofNat_add, UInt64.ofNat_toNat, UInt64.add_assoc]

/-- What the sizes of a package are to be, given its classes. -/
structure PackageSizes.AreOf (sizes : PackageSizes) (nodes : List ClassNode) : Prop where
  classes : sizes.classes = (nodes.filter (·.analyzed)).length
  codeSize : sizes.codeSize
    = UInt64.ofNat (ClassNode.sum (·.codeSize) (nodes.filter (·.analyzed)))
  totalSize : sizes.totalSize
    = UInt64.ofNat (ClassNode.sum (·.totalSize) (nodes.filter (·.analyzed)))

theorem PackageSizes.areOf_ofMembers (nodes : List ClassNode) :
    (PackageSizes.ofMembers nodes).AreOf nodes where
  classes := rfl
  codeSize := (foldl_add_size (·.codeSize) _ 0).trans (UInt64.zero_add _)
  totalSize := (foldl_add_size (·.totalSize) _ 0).trans (UInt64.zero_add _)

theorem Model.sizes_areOf (hidx : (Model.assemble filter records sources).ClassesIndexed)
    {package : Package} (h : package ∈ (Model.assemble filter records sources).packages) :
    package.sizes.AreOf ((Model.assemble filter records sources).members package) := by
  obtain ⟨i, hget⟩ := Array.mem_iff_getElem?.mp h
  rw [Model.sizes_eq_ofMembers filter records sources hget,
    Model.members_eq_owned filter records sources hidx hget]
  exact PackageSizes.areOf_ofMembers _

end Packages

/-! ### The model -/

/-- What the model of some class records is to be. -/
structure Model.IsOf (model : Model) (filter : PackageFilter) (records : List ClassRecord) :
    Prop where
  classes_ascending : model.classes.toList.Pairwise (·.name < ·.name)
  packages_ascending : model.packages.toList.Pairwise (·.name < ·.name)
  /-- Looking a name up is the inverse of reading the name at a position. -/
  class_lookup : ∀ name i, (model.classId? name).map (·.position) = some i ↔
    (model.classes[i]?).map (·.name) = some name
  package_lookup : ∀ name i, (model.packageId? name).map (·.position) = some i ↔
    (model.packages[i]?).map (·.name) = some name
  class_names : ∀ name, (∃ node ∈ model.classes, node.name = name) ↔
    (filter.declaration? records name).isSome = true
      ∨ filter.isIgnored name = false ∧ filter.Mentioned records name
  class_analyzed : ∀ node ∈ model.classes,
    node.analyzed = true ↔ (filter.declaration? records node.name).isSome = true
  class_package : ∀ node ∈ model.classes,
    (model.package? node.package).map (·.name) = some (filter.packageFor node.name)
  /-- A class is listed by its own package only. -/
  class_listed : ∀ c node, model.class? c = some node → ∀ p package,
    model.package? p = some package → (c ∈ package.classes ↔ node.package = p)
  listed_exist : ∀ package ∈ model.packages, ∀ c ∈ package.classes,
    ∃ node, model.class? c = some node
  listed_ascending : ∀ package ∈ model.packages,
    package.classes.Pairwise fun c d => c.position < d.position
  package_names : ∀ name, (∃ package ∈ model.packages, package.name = name) ↔
    (∃ node ∈ model.classes, filter.packageFor node.name = name)
      ∨ ∃ record ∈ records, filter.Annotates record name
  package_analyzed : ∀ package ∈ model.packages, package.analyzed = true ↔
    (∃ node ∈ model.members package, node.analyzed = true)
      ∨ ∃ record ∈ records, filter.Annotates record package.name
  package_sizes : ∀ package ∈ model.packages, package.sizes.AreOf (model.members package)

/-- **Putting class records together gives the model that they stand for.** -/
theorem Model.assemble_isOf (filter : PackageFilter) (records : List ClassRecord)
    (sources : List SourceRecord)
    (hclasses : (Model.assemble filter records sources).ClassesIndexed)
    (hpackages : (Model.assemble filter records sources).Indexed) :
    (Model.assemble filter records sources).IsOf filter records := by
  have h := Model.assemble_wellFormed filter records sources
  have hlt : ∀ {a b : String}, compare a b = .lt → a < b := compare_string_lt.mp
  exact {
    classes_ascending := (List.pairwise_map.mp h.classes_ascending).imp hlt
    packages_ascending := (List.pairwise_map.mp h.packages_ascending).imp hlt
    class_lookup := fun name i => classId?_position h hclasses
    package_lookup := fun name i => packageId?_position h hpackages
    class_names := fun name => exists_class_iff filter records sources
    class_analyzed := fun node hnode => analyzed_iff filter records sources hnode
    class_package := fun node hnode => package_of_class filter records sources hpackages hnode
    class_listed := fun c node hc p package hp =>
      mem_classes_iff filter records sources hclasses hc hp
    listed_exist := fun package hp c hc =>
      exists_class_of_mem_classes filter records sources hclasses hp hc
    listed_ascending := fun package hp => classes_sorted filter records sources hclasses hp
    package_names := fun name => exists_package_iff filter records sources
    package_analyzed := fun package hp =>
      package_analyzed_iff filter records sources hclasses hp
    package_sizes := fun package hp => sizes_areOf filter records sources hclasses hp }

/-- A filter that leaves the classes of the platform out and puts a library into one package. -/
def Model.sampleFilter : PackageFilter where
  ignore := ["java."]
  merge := ["lib."]

/-- A class that is declared twice, one that is left out, and the annotations of a package. -/
def Model.sampleRecords : List ClassRecord :=
  [{ name := "app.Main", codeSize := 10,
     references := [("java.lang.Object", 1), ("lib.core.Store", 2), ("lib.ui.View", 1)] },
    { name := "java.lang.String" },
    { name := "app.Main", codeSize := 99, references := [("other.Thing", 1)] },
    { name := "app.package-info", annotations := ["app.Marker"] }]

theorem Model.sample_classesIndexed :
    (Model.assemble sampleFilter sampleRecords []).ClassesIndexed := by
  unfold Model.ClassesIndexed
  decide +kernel

theorem Model.sample_indexed : (Model.assemble sampleFilter sampleRecords []).Indexed := by
  unfold Model.Indexed
  decide +kernel

/-- The model of the sample: the first declaration counts, and the library is one package. -/
theorem Model.sample_isOf :
    (Model.assemble sampleFilter sampleRecords []).IsOf sampleFilter sampleRecords
      ∧ (Model.assemble sampleFilter sampleRecords []).classes.toList.map (·.name)
        = ["app.Main", "lib.core.Store", "lib.ui.View"]
      ∧ (Model.assemble sampleFilter sampleRecords []).packages.toList.map
          (fun package => (package.name, package.analyzed, package.sizes.codeSize))
        = [("app", true, 10), ("lib", false, 0)] := by
  refine ⟨Model.assemble_isOf _ _ _ sample_classesIndexed sample_indexed, ?_, ?_⟩
  · decide +kernel
  · decide +kernel

end PackageAudit
