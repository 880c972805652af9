/-
The tables of an assembled model.

Rules and cycles are worked out on positions in the tables and reported by names, so all that
is proved of them rests on how the two go together.  The tables are strictly ascending by
name; what a package or a class uses is in the tables, and is listed once and in order; and a
package uses another only because one of its classes does.

None of this needs a bound on the size of the model.  If there are more packages or classes
than references can tell apart, a reference leads to another entry than it was made for, but
it still leads into the table.
-/
import PackageAudit.Model.Assemble
import PackageAudit.Proofs.Ascending
import PackageAudit.Proofs.Orders

namespace PackageAudit

open Ascending

/-- Tables in which references and names go together. -/
structure Model.WellFormed (model : Model) : Prop where
  packages_ascending : IsAscending (model.packages.toList.map (·.name))
  classes_ascending : IsAscending (model.classes.toList.map (·.name))
  uses_ascending : ∀ package ∈ model.packages, IsAscending package.uses
  uses_lt : ∀ package ∈ model.packages, ∀ id ∈ package.uses, id.position < model.packages.size
  classUses_table : ∀ node ∈ model.classes, IsTable node.uses
  classUses_lt : ∀ node ∈ model.classes, ∀ use ∈ node.uses, use.1.position < model.classes.size
  /-- A package that uses another has a reference, and a class that brings the use about. -/
  uses_via : ∀ i package, model.packages[i]? = some package → ∀ id ∈ package.uses,
    i ≤ greatestPosition ∧ ∃ c ∈ package.classes, ∃ node, model.class? c = some node
      ∧ ∃ use ∈ node.uses, model.belongsTo use.1 id = true

/-! ### Declared records -/

namespace Declarations

/-- The records stand in their table under their names. -/
structure Named (declarations : Declarations) : Prop where
  table : IsTable declarations.records
  name_eq : ∀ entry ∈ declarations.records, entry.2.name = entry.1

theorem Named.add {declarations : Declarations} (h : Named declarations) (filter : PackageFilter)
    (record : ClassRecord) : Named (declarations.add filter record) := by
  unfold Declarations.add
  split
  · exact h
  · split
    · exact ⟨h.table, h.name_eq⟩
    · have htable : IsTable (insertNew record.name record declarations.records) :=
        isTable_alter h.table _ _
      refine ⟨htable, ?_⟩
      intro entry hmem
      obtain ⟨key, value⟩ := entry
      have hfind := (find?_eq_some_iff htable).mpr hmem
      unfold insertNew at hfind
      by_cases hkey : key = record.name
      · rw [hkey, find?_alter_self h.table] at hfind
        -- Either the record is new, or the one that was there has the same name.
        cases hold : find? record.name declarations.records with
        | none =>
            rw [hold] at hfind
            obtain rfl : record = value := Option.some.inj hfind
            exact hkey.symm
        | some old =>
            rw [hold] at hfind
            obtain rfl : old = value := Option.some.inj hfind
            rw [hkey]
            exact h.name_eq _ ((find?_eq_some_iff h.table).mp hold)
      · rw [find?_alter_of_ne h.table hkey] at hfind
        exact h.name_eq _ ((find?_eq_some_iff h.table).mp hfind)

theorem named_ofRecords (filter : PackageFilter) (records : List ClassRecord) :
    Named (ofRecords filter records) := by
  have hfold : ∀ (records : List ClassRecord) (declarations : Declarations), Named declarations →
      Named (records.foldl (Declarations.add filter) declarations) := by
    intro records
    induction records with
    | nil => exact fun _ h => h
    | cons record rest ih => exact fun _ h => ih _ (h.add filter record)
  exact hfold records {} ⟨List.Pairwise.nil, fun _ h => absurd h List.not_mem_nil⟩

theorem isAscending_classNames {declarations : Declarations} (h : Named declarations)
    (filter : PackageFilter) : IsAscending (declarations.classNames filter) :=
  isAscending_union h.table _

theorem isAscending_packageNames (declarations : Declarations) (filter : PackageFilter)
    (classNames : List String) : IsAscending (declarations.packageNames filter classNames) :=
  isAscending_union (isAscending_ofList _) _

theorem packageFor_mem {declarations : Declarations} {filter : PackageFilter}
    {classNames : List String} {name : String} (h : name ∈ classNames) :
    filter.packageFor name ∈ declarations.packageNames filter classNames :=
  mem_union.mpr (Or.inl (mem_ofList.mpr (List.mem_map_of_mem h)))

end Declarations

/-! ### Positions -/

theorem position?_eq_some {names : List String} {name : String} {i : Nat}
    (h : position? names name = some i) : names[i]? = some name := by
  obtain ⟨hlt, heq, -⟩ := List.findIdx?_eq_some_iff_getElem.mp h
  rw [List.getElem?_eq_getElem hlt]
  exact congrArg some (beq_iff_eq.mp heq)

theorem exists_position? {names : List String} {name : String} (h : name ∈ names) :
    ∃ i, position? names name = some i := by
  unfold position?
  cases hidx : names.findIdx? (· == name) with
  | none =>
      rw [List.findIdx?_eq_none_iff] at hidx
      simpa using hidx name h
  | some i => exact ⟨i, rfl⟩

theorem position?_lt {names : List String} {name : String} {i : Nat}
    (h : position? names name = some i) : i < names.length :=
  (List.getElem?_eq_some_iff.mp (position?_eq_some h)).1

/-- The table of names in which each stands with the reference to its position. -/
def idTable {Id : Type} (ofPosition : Nat → Id) (names : List String) : List (String × Id) :=
  Ascending.ofPairs (names.zipIdx.map (Prod.map id ofPosition))

section Ids

variable {names : List String} (h : IsAscending names)
include h

/-- In an ascending table a name is at one position only. -/
theorem position?_eq_some_iff {name : String} {i : Nat} :
    position? names name = some i ↔ names[i]? = some name := by
  refine ⟨position?_eq_some, fun hget => ?_⟩
  obtain ⟨j, hj⟩ := exists_position? (List.mem_of_getElem? hget)
  rw [hj, h.getElem?_inj (position?_eq_some hj) hget]

/-- Searching for a name comes to the same as looking it up in the table of references. -/
theorem find?_idTable {Id : Type} (ofPosition : Nat → Id) (name : String) :
    Ascending.find? name (idTable ofPosition names) = (position? names name).map ofPosition := by
  have hkeys : (names.zipIdx.map (Prod.map id ofPosition)).map Prod.fst = names := by
    rw [List.map_map]
    exact List.zipIdx_map_fst 0 names
  have hnodup : ((names.zipIdx.map (Prod.map id ofPosition)).map Prod.fst).Nodup := by
    rw [hkeys]
    exact h.nodup
  refine Option.ext fun id => ?_
  rw [idTable, find?_eq_some_iff (isTable_ofPairs _), mem_ofPairs hnodup,
    Option.map_eq_some_iff]
  simp only [position?_eq_some_iff h, List.mem_map, Prod.exists, List.mem_zipIdx_iff_getElem?,
    Prod.map_apply, Prod.mk.injEq, id_eq]
  refine ⟨?_, ?_⟩
  · rintro ⟨_, i, hget, rfl, rfl⟩
    exact ⟨i, hget, rfl⟩
  · rintro ⟨i, hget, rfl⟩
    exact ⟨name, i, hget, rfl, rfl⟩

end Ids

/-! ### Classes -/

section Assemble

variable (filter : PackageFilter) (records : List ClassRecord) (sources : List SourceRecord)

namespace Declarations

variable {declarations : Declarations} {classNames packageNames : List String} {name : String}

theorem node_name (h : Named declarations) :
    (declarations.node filter classNames packageNames sources name).name = name := by
  unfold node
  cases hfind : find? name declarations.records with
  | none => rfl
  | some record => exact h.name_eq _ ((find?_eq_some_iff h.table).mp hfind)

/-- The package of a class is in the table of packages. -/
theorem node_package_lt (h : filter.packageFor name ∈ packageNames) :
    (declarations.node filter classNames packageNames sources name).package.position
      < packageNames.length := by
  obtain ⟨i, hi⟩ := exists_position? h
  have hlt := position?_lt hi
  have hpackage : (declarations.node filter classNames packageNames sources name).package
      = PackageId.ofPosition i := by
    unfold node
    rw [hi]
    cases find? name declarations.records <;> rfl
  rw [hpackage, PackageId.position_ofPosition]
  omega

theorem node_uses_table :
    IsTable (declarations.node filter classNames packageNames sources name).uses := by
  unfold node
  cases find? name declarations.records with
  | none => exact List.Pairwise.nil
  | some record => exact isTable_ofPairs _

theorem node_uses_lt {use : ClassId × UInt32}
    (h : use ∈ (declarations.node filter classNames packageNames sources name).uses) :
    use.1.position < classNames.length := by
  unfold node at h
  cases hfind : find? name declarations.records with
  | none =>
      rw [hfind] at h
      exact absurd h List.not_mem_nil
  | some record =>
      rw [hfind] at h
      have hkey := mem_keys_ofPairs.mp (List.mem_map_of_mem h)
      obtain ⟨pair, hpair, hfst⟩ := List.mem_map.mp hkey
      obtain ⟨⟨target, count⟩, -, hsome⟩ := List.mem_filterMap.mp hpair
      obtain ⟨i, hi, rfl⟩ := Option.map_eq_some_iff.mp hsome
      have hlt := position?_lt hi
      rw [← hfst, ClassId.position_ofPosition]
      omega

end Declarations

/-! ### Packages -/

/-- A package uses what one of its classes uses, if it is not the package of that class. -/
theorem mem_uses_derive {declarations : Declarations} {classes : Array ClassNode} {name : String}
    {position : Nat} {id : PackageId} :
    id ∈ (Package.derive declarations classes name position).uses ↔
      ∃ c ∈ (Package.derive declarations classes name position).classes,
        ∃ node, classes[c.position]? = some node ∧ id ∈ node.usedPackages classes := by
  show id ∈ ofList _ ↔ _
  rw [mem_ofList, List.mem_flatMap]
  refine ⟨?_, ?_⟩
  · rintro ⟨node, hnode, hid⟩
    obtain ⟨c, hc, hget⟩ := List.mem_filterMap.mp hnode
    exact ⟨c, hc, node, hget, hid⟩
  · rintro ⟨c, hc, node, hget, hid⟩
    exact ⟨node, List.mem_filterMap.mpr ⟨c, hc, hget⟩, hid⟩

theorem mem_usedPackages {classes : Array ClassNode} {node : ClassNode} {id : PackageId} :
    id ∈ node.usedPackages classes ↔
      id ≠ node.package
        ∧ ∃ use ∈ node.uses, (classes[use.1.position]?).map (·.package) = some id := by
  unfold ClassNode.usedPackages
  rw [List.mem_filter, List.mem_filterMap, decide_eq_true_eq, and_comm]

/-- A class of a package was put into it. -/
theorem mem_classes_derive {declarations : Declarations} {classes : Array ClassNode}
    {name : String} {position : Nat} {c : ClassId} :
    c ∈ (Package.derive declarations classes name position).classes ↔
      ∃ i node, classes[i]? = some node ∧ node.package.position = position
        ∧ ClassId.ofPosition i = c := by
  show c ∈ (List.filter _ _).map _ ↔ _
  simp only [List.mem_map, List.mem_filter, Prod.exists, List.mem_zipIdx_iff_getElem?,
    Array.getElem?_toList, beq_iff_eq]
  refine ⟨?_, ?_⟩
  · rintro ⟨node, i, ⟨hget, hpos⟩, hc⟩
    exact ⟨i, node, hget, hpos, hc⟩
  · rintro ⟨i, node, hget, hpos, hc⟩
    exact ⟨node, i, ⟨hget, hpos⟩, hc⟩

/-! ### The model -/

theorem Model.assemble_classes :
    (Model.assemble filter records sources).classes
      = (((Declarations.ofRecords filter records).classNames filter).map
          ((Declarations.ofRecords filter records).node filter
            ((Declarations.ofRecords filter records).classNames filter)
            ((Declarations.ofRecords filter records).packageNames filter
              ((Declarations.ofRecords filter records).classNames filter)) sources)).toArray :=
  rfl

theorem Model.assemble_packages :
    (Model.assemble filter records sources).packages
      = (((Declarations.ofRecords filter records).packageNames filter
          ((Declarations.ofRecords filter records).classNames filter)).zipIdx.map
          fun (name, i) => Package.derive (Declarations.ofRecords filter records)
            (Model.assemble filter records sources).classes name i).toArray :=
  rfl

theorem Model.assemble_classNames :
    (Model.assemble filter records sources).classes.toList.map (·.name)
      = (Declarations.ofRecords filter records).classNames filter := by
  rw [Model.assemble_classes, List.toList_toArray, List.map_map]
  refine (List.map_congr_left fun name _ => ?_).trans (List.map_id _)
  exact Declarations.node_name filter sources (Declarations.named_ofRecords filter records)

theorem Model.assemble_packageNames :
    (Model.assemble filter records sources).packages.toList.map (·.name)
      = (Declarations.ofRecords filter records).packageNames filter
          ((Declarations.ofRecords filter records).classNames filter) := by
  rw [Model.assemble_packages, List.toList_toArray, List.map_map]
  exact List.zipIdx_map_fst 0 _

theorem Model.assemble_packages_getElem? {i : Nat} {package : Package}
    (h : (Model.assemble filter records sources).packages[i]? = some package) :
    ∃ name, package = Package.derive (Declarations.ofRecords filter records)
      (Model.assemble filter records sources).classes name i := by
  rw [Model.assemble_packages, List.getElem?_toArray, List.getElem?_map, List.getElem?_zipIdx,
    Option.map_map, Option.map_eq_some_iff] at h
  obtain ⟨name, -, rfl⟩ := h
  refine ⟨name, ?_⟩
  show Package.derive _ _ name (0 + i) = _
  rw [Nat.zero_add]

/-- Each class of the model is the node of one of the names. -/
theorem Model.exists_name_of_mem_classes {node : ClassNode}
    (h : node ∈ (Model.assemble filter records sources).classes) :
    ∃ name ∈ (Declarations.ofRecords filter records).classNames filter,
      node = (Declarations.ofRecords filter records).node filter
        ((Declarations.ofRecords filter records).classNames filter)
        ((Declarations.ofRecords filter records).packageNames filter
          ((Declarations.ofRecords filter records).classNames filter)) sources name := by
  rw [Model.assemble_classes, List.mem_toArray, List.mem_map] at h
  obtain ⟨name, hname, rfl⟩ := h
  exact ⟨name, hname, rfl⟩

theorem Model.assemble_packages_size :
    (Model.assemble filter records sources).packages.size
      = ((Declarations.ofRecords filter records).packageNames filter
          ((Declarations.ofRecords filter records).classNames filter)).length := by
  have hlength := congrArg List.length (Model.assemble_packageNames filter records sources)
  rwa [List.length_map, Array.length_toList] at hlength

theorem Model.assemble_classes_size :
    (Model.assemble filter records sources).classes.size
      = ((Declarations.ofRecords filter records).classNames filter).length := by
  have hlength := congrArg List.length (Model.assemble_classNames filter records sources)
  rwa [List.length_map, Array.length_toList] at hlength

/-- A package uses another because one of its classes does. -/
theorem Model.assemble_uses_via {i : Nat} {package : Package}
    (hget : (Model.assemble filter records sources).packages[i]? = some package) {id : PackageId}
    (hid : id ∈ package.uses) :
    i ≤ greatestPosition ∧ ∃ c ∈ package.classes, ∃ node,
      (Model.assemble filter records sources).class? c = some node ∧ ∃ use ∈ node.uses,
        (Model.assemble filter records sources).belongsTo use.1 id = true := by
  obtain ⟨name, rfl⟩ := Model.assemble_packages_getElem? filter records sources hget
  obtain ⟨c, hc, node, hnode, hused⟩ := mem_uses_derive.mp hid
  obtain ⟨j, member, -, hpos, -⟩ := mem_classes_derive.mp hc
  obtain ⟨-, use, huse, hbelongs⟩ := mem_usedPackages.mp hused
  refine ⟨hpos ▸ member.package.position_le, c, hc, node, hnode, use, huse, ?_⟩
  unfold Model.belongsTo Model.class?
  rw [hbelongs]
  exact beq_self_eq_true _

/-- What a package uses is the package of a class. -/
theorem Model.assemble_uses_lt {i : Nat} {package : Package}
    (hget : (Model.assemble filter records sources).packages[i]? = some package) {id : PackageId}
    (hid : id ∈ package.uses) :
    id.position < (Model.assemble filter records sources).packages.size := by
  obtain ⟨-, c, -, node, -, use, -, hbelongs⟩ :=
    Model.assemble_uses_via filter records sources hget hid
  unfold Model.belongsTo at hbelongs
  rw [beq_iff_eq, Option.map_eq_some_iff] at hbelongs
  obtain ⟨used, hused, rfl⟩ := hbelongs
  obtain ⟨name, hname, rfl⟩ := Model.exists_name_of_mem_classes filter records sources
    (Array.mem_of_getElem? hused)
  rw [Model.assemble_packages_size]
  exact Declarations.node_package_lt filter sources (Declarations.packageFor_mem hname)

/-- Every assembled model is well formed. -/
theorem Model.assemble_wellFormed : (Model.assemble filter records sources).WellFormed := by
  refine ⟨?_, ?_, ?_, ?_, ?_, ?_, ?_⟩
  · rw [Model.assemble_packageNames]
    exact Declarations.isAscending_packageNames _ _ _
  · rw [Model.assemble_classNames]
    exact Declarations.isAscending_classNames (Declarations.named_ofRecords filter records) filter
  · intro package hp
    obtain ⟨i, hget⟩ := Array.mem_iff_getElem?.mp hp
    obtain ⟨name, rfl⟩ := Model.assemble_packages_getElem? filter records sources hget
    exact isAscending_ofList _
  · intro package hp id hid
    obtain ⟨i, hget⟩ := Array.mem_iff_getElem?.mp hp
    exact Model.assemble_uses_lt filter records sources hget hid
  · intro node hn
    obtain ⟨name, -, rfl⟩ := Model.exists_name_of_mem_classes filter records sources hn
    exact Declarations.node_uses_table filter sources
  · intro node hn use huse
    obtain ⟨name, -, rfl⟩ := Model.exists_name_of_mem_classes filter records sources hn
    rw [Model.assemble_classes_size]
    exact Declarations.node_uses_lt filter sources huse
  · intro i package hget id hid
    exact Model.assemble_uses_via filter records sources hget hid

end Assemble

end PackageAudit
