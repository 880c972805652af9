/-
What a list of class records declares, read off the list itself.

Putting records together fills two tables by a walk along the list.  What the tables hold in
the end can be said without the walk: under a name stands the first record that declares a
class of that name, and a package has annotations if some record carries them, however many
records there are and in whatever order.  The names of the classes and packages of the model
follow from that, and nothing that is proved of a model later has to look at the walk again.
-/
import PackageAudit.Proofs.Model.Tables

namespace PackageAudit

open Ascending

namespace PackageFilter

/-- Whether a record declares a class. -/
def declares (filter : PackageFilter) (record : ClassRecord) : Bool :=
  !filter.isIgnored record.name && !record.isPackageInfo

/-- The declaration of a class: of the records that declare a class of that name the first. -/
def declaration? (filter : PackageFilter) (records : List ClassRecord) (name : String) :
    Option ClassRecord :=
  records.find? fun record => filter.declares record && record.name == name

/-- Whether a record carries the annotations of a package. -/
def Annotates (filter : PackageFilter) (record : ClassRecord) (package : String) : Prop :=
  filter.isIgnored record.name = false ∧ record.isPackageInfo = true
    ∧ filter.packageFor record.name = package

/-- Whether a class is mentioned by a declaration. -/
def Mentioned (filter : PackageFilter) (records : List ClassRecord) (name : String) : Prop :=
  ∃ user record, filter.declaration? records user = some record
    ∧ name ∈ record.references.map Prod.fst

variable {filter : PackageFilter} {records : List ClassRecord} {record : ClassRecord}
  {name : String}

theorem mem_of_declaration? (h : filter.declaration? records name = some record) :
    record ∈ records :=
  List.mem_of_find?_eq_some h

theorem not_isIgnored_of_declaration? (h : filter.declaration? records name = some record) :
    filter.isIgnored name = false := by
  have hfound := List.find?_some h
  simp only [declares, Bool.and_eq_true, Bool.not_eq_true', beq_iff_eq] at hfound
  obtain ⟨⟨hignored, -⟩, hname⟩ := hfound
  rw [← hname]
  exact hignored

end PackageFilter

theorem Ascending.isSome_find? {β : Type} {table : List (String × β)} (h : IsTable table)
    {key : String} : (find? key table).isSome = true ↔ key ∈ table.map Prod.fst := by
  simp only [Option.isSome_iff_exists, find?_eq_some_iff h, List.mem_map, Prod.exists,
    exists_and_right, exists_eq_right]

namespace Declarations

/-- The annotations of a package. -/
def annotations (declarations : Declarations) (package : String) : List String :=
  (find? package declarations.packageAnnotations).getD []

variable {filter : PackageFilter} {declarations : Declarations} {record : ClassRecord}

/-! ### One record -/

/-- A record changes what stands under its name only, and only if nothing stands there yet. -/
theorem find?_records_add (h : Named declarations) (name : String) :
    find? name (declarations.add filter record).records
      = (find? name declarations.records).or
          (if filter.declares record && record.name == name then some record else none) := by
  unfold add PackageFilter.declares
  by_cases hignored : filter.isIgnored record.name = true
  · simp [hignored]
  · by_cases hinfo : record.isPackageInfo = true
    · simp [hignored, hinfo]
    · by_cases hname : record.name = name
      · subst hname
        simp only [hignored, hinfo, Bool.false_eq_true, if_false, insertNew]
        rw [find?_alter_self h.table]
        cases find? record.name declarations.records <;> simp
      · have hne : name ≠ record.name := fun heq => hname heq.symm
        simp [hignored, hinfo, hname, insertNew, find?_alter_of_ne h.table hne]

theorem isTable_packageAnnotations_add (h : IsTable declarations.packageAnnotations) :
    IsTable (declarations.add filter record).packageAnnotations := by
  unfold add
  split
  · exact h
  · split
    · exact isTable_alter h _ _
    · exact h

theorem mem_packageAnnotations_add {package : String} :
    package ∈ (declarations.add filter record).packageAnnotations.map Prod.fst ↔
      package ∈ declarations.packageAnnotations.map Prod.fst
        ∨ filter.Annotates record package := by
  unfold add PackageFilter.Annotates
  by_cases hignored : filter.isIgnored record.name = true
  · simp [hignored]
  · by_cases hinfo : record.isPackageInfo = true
    · simp only [hignored, hinfo, Bool.false_eq_true, if_false, if_true, mem_keys_alter]
      simp [eq_comm, or_comm]
    · simp [hignored, hinfo]

/-- A record adds its annotations to those of its own package. -/
theorem mem_annotations_add (h : IsTable declarations.packageAnnotations)
    {package annotation : String} :
    annotation ∈ (declarations.add filter record).annotations package ↔
      annotation ∈ declarations.annotations package
        ∨ filter.Annotates record package ∧ annotation ∈ record.annotations := by
  unfold annotations add PackageFilter.Annotates
  by_cases hignored : filter.isIgnored record.name = true
  · simp [hignored]
  · by_cases hinfo : record.isPackageInfo = true
    · simp only [hignored, hinfo, Bool.false_eq_true, if_false, if_true, true_and]
      by_cases hpackage : filter.packageFor record.name = package
      · subst hpackage
        rw [find?_alter_self h, Option.getD_some, mem_union, eq_self, true_and]
      · have hne : package ≠ filter.packageFor record.name := fun heq => hpackage heq.symm
        simp [find?_alter_of_ne h hne, hpackage]
    · simp [hignored, hinfo]

theorem isAscending_annotations_add (h : IsTable declarations.packageAnnotations)
    (hsorted : ∀ package, IsAscending (declarations.annotations package)) (package : String) :
    IsAscending ((declarations.add filter record).annotations package) := by
  unfold annotations add
  split
  · exact hsorted package
  · split
    · by_cases hpackage : package = filter.packageFor record.name
      · subst hpackage
        rw [find?_alter_self h]
        exact isAscending_union (hsorted _) _
      · rw [find?_alter_of_ne h hpackage]
        exact hsorted package
    · exact hsorted package

/-! ### All records -/

-- Both tables are filled by the same walk, so each fact is carried along it from any start.

theorem find?_records_foldl (filter : PackageFilter) (records : List ClassRecord)
    {declarations : Declarations} (h : Named declarations) (name : String) :
    find? name (records.foldl (add filter) declarations).records
      = (find? name declarations.records).or (filter.declaration? records name) := by
  induction records generalizing declarations with
  | nil => simp [PackageFilter.declaration?]
  | cons record rest ih =>
      rw [List.foldl_cons, ih (h.add filter record), find?_records_add h, Option.or_assoc]
      congr 1
      unfold PackageFilter.declaration?
      rw [List.find?_cons]
      cases filter.declares record && record.name == name <;> simp

theorem isTable_packageAnnotations_foldl (filter : PackageFilter) (records : List ClassRecord)
    {declarations : Declarations} (h : IsTable declarations.packageAnnotations) :
    IsTable (records.foldl (add filter) declarations).packageAnnotations := by
  induction records generalizing declarations with
  | nil => exact h
  | cons record rest ih => exact ih (isTable_packageAnnotations_add h)

theorem mem_packageAnnotations_foldl (filter : PackageFilter) (records : List ClassRecord)
    {declarations : Declarations} {package : String} :
    package ∈ (records.foldl (add filter) declarations).packageAnnotations.map Prod.fst ↔
      package ∈ declarations.packageAnnotations.map Prod.fst
        ∨ ∃ record ∈ records, filter.Annotates record package := by
  induction records generalizing declarations with
  | nil => simp
  | cons record rest ih =>
      rw [List.foldl_cons, ih, mem_packageAnnotations_add, or_assoc]
      simp only [List.mem_cons, exists_eq_or_imp]

theorem mem_annotations_foldl (filter : PackageFilter) (records : List ClassRecord)
    {declarations : Declarations} (h : IsTable declarations.packageAnnotations)
    {package annotation : String} :
    annotation ∈ (records.foldl (add filter) declarations).annotations package ↔
      annotation ∈ declarations.annotations package
        ∨ ∃ record ∈ records, filter.Annotates record package
            ∧ annotation ∈ record.annotations := by
  induction records generalizing declarations with
  | nil => simp
  | cons record rest ih =>
      rw [List.foldl_cons, ih (isTable_packageAnnotations_add h), mem_annotations_add h, or_assoc]
      simp only [List.mem_cons, exists_eq_or_imp]

theorem isAscending_annotations_foldl (filter : PackageFilter) (records : List ClassRecord)
    {declarations : Declarations} (h : IsTable declarations.packageAnnotations)
    (hsorted : ∀ package, IsAscending (declarations.annotations package)) (package : String) :
    IsAscending ((records.foldl (add filter) declarations).annotations package) := by
  induction records generalizing declarations with
  | nil => exact hsorted package
  | cons record rest ih =>
      exact ih (isTable_packageAnnotations_add h) (isAscending_annotations_add h hsorted)

variable (filter) (records : List ClassRecord)

/-- Under a name stands its declaration. -/
theorem find?_ofRecords (name : String) :
    find? name (ofRecords filter records).records = filter.declaration? records name :=
  find?_records_foldl filter records (named_ofRecords filter []) name

theorem isTable_packageAnnotations_ofRecords :
    IsTable (ofRecords filter records).packageAnnotations :=
  isTable_packageAnnotations_foldl filter records List.Pairwise.nil

/-- A package has annotations if a record carries them. -/
theorem isSome_find?_packageAnnotations {package : String} :
    (find? package (ofRecords filter records).packageAnnotations).isSome = true ↔
      ∃ record ∈ records, filter.Annotates record package := by
  rw [isSome_find? (isTable_packageAnnotations_ofRecords filter records)]
  refine (mem_packageAnnotations_foldl filter records).trans (or_iff_right ?_)
  exact List.not_mem_nil

/-- The annotations of a package are those that some record carries. -/
theorem mem_annotations_ofRecords {package annotation : String} :
    annotation ∈ (ofRecords filter records).annotations package ↔
      ∃ record ∈ records, filter.Annotates record package ∧ annotation ∈ record.annotations := by
  have hempty : IsTable ({} : Declarations).packageAnnotations := List.Pairwise.nil
  refine (mem_annotations_foldl filter records hempty).trans (or_iff_right ?_)
  exact List.not_mem_nil

theorem isAscending_annotations_ofRecords (package : String) :
    IsAscending ((ofRecords filter records).annotations package) := by
  have hempty : IsTable ({} : Declarations).packageAnnotations := List.Pairwise.nil
  exact isAscending_annotations_foldl filter records hempty (fun _ => List.Pairwise.nil) package

/-! ### Names -/

theorem mem_records_ofRecords {name : String} {record : ClassRecord} :
    (name, record) ∈ (ofRecords filter records).records ↔
      filter.declaration? records name = some record := by
  rw [← find?_ofRecords, find?_eq_some_iff (named_ofRecords filter records).table]

/-- The classes of the model are the declared ones and those that a declaration mentions. -/
theorem mem_classNames {name : String} :
    name ∈ (ofRecords filter records).classNames filter ↔
      (filter.declaration? records name).isSome = true
        ∨ filter.isIgnored name = false ∧ filter.Mentioned records name := by
  rw [classNames, mem_union, ← isSome_find? (named_ofRecords filter records).table,
    find?_ofRecords, List.mem_filter, List.mem_flatMap]
  simp only [PackageFilter.Mentioned, Prod.exists, mem_records_ofRecords, Bool.not_eq_true']
  rw [and_comm]

/-- The packages of the model are those of its classes and those that have annotations. -/
theorem mem_packageNames {package : String} :
    package ∈ (ofRecords filter records).packageNames filter
        ((ofRecords filter records).classNames filter) ↔
      (∃ name ∈ (ofRecords filter records).classNames filter, filter.packageFor name = package)
        ∨ ∃ record ∈ records, filter.Annotates record package := by
  rw [packageNames, mem_union, mem_ofList, List.mem_map,
    ← isSome_find? (isTable_packageAnnotations_ofRecords filter records),
    isSome_find?_packageAnnotations]

end Declarations

end PackageAudit
