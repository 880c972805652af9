/-
Packages that are put together.

A filter may put several packages into one.  The model that is made so is compared here with the
model of the same records in which every package stays by itself: it is the quotient of that
model by the map from packages to packages.  The classes are the same and go into the image of
their package, one image uses another if something in the one uses something in the other, and
sizes, annotations and the mark of having been analyzed are gathered from all that is put
together.

The two models are made apart from each other, with positions of their own for the packages.
Hence nothing is carried over position by position.  What is compared is what each says by
name; and only that a class keeps its position, since the classes are the same in both.
-/
import Mathlib.Data.List.DropRight
import PackageAudit.Proofs.Model.Growth

namespace PackageAudit

open Ascending

/-! ### The map of packages -/

theorem trimEnd_isPrefix (c : Char) (text : String) :
    (trimEnd c text).toList <+: text.toList := by
  unfold trimEnd
  rw [String.toList_ofList]
  exact List.rdropWhile_prefix (· == c) text.toList

namespace PackageFilter

theorem covers_iff {stem package : String} : covers stem package = true ↔
    stem.toList <+: package.toList ∨ package = trimEnd '.' stem := by
  rw [covers, startsWith, Bool.or_eq_true, List.isPrefixOf_iff_prefix, beq_iff_eq]

/-- What takes in the package of a stem takes in all that the stem does, or stands for the same
package. -/
theorem covers_of_covers_trimEnd {stem other package : String} (h : covers stem package = true)
    (hother : covers other (trimEnd '.' stem) = true) :
    covers other package = true ∨ trimEnd '.' other = trimEnd '.' stem := by
  rcases covers_iff.mp hother with hpre | heq
  · left
    apply covers_iff.mpr
    left
    rcases covers_iff.mp h with hstem | rfl
    · exact (hpre.trans (trimEnd_isPrefix '.' stem)).trans hstem
    · exact hpre
  · exact Or.inr heq.symm

/-- The first stem that takes in the package of a stem found before stands for that package too. -/
theorem exists_find?_covers {merge : List String} {package stem : String}
    (h : merge.find? (covers · package) = some stem) :
    ∃ first, merge.find? (covers · (trimEnd '.' stem)) = some first
      ∧ trimEnd '.' first = trimEnd '.' stem := by
  have hcovers := List.find?_some (p := (covers · package)) h
  induction merge with
  | nil => simp at h
  | cons next rest ih =>
      rw [List.find?_cons] at h ⊢
      by_cases hnext : covers next package = true
      · rw [hnext] at h
        obtain rfl := Option.some.inj h
        have hself : covers next (trimEnd '.' next) = true := covers_iff.mpr (Or.inr rfl)
        rw [hself]
        exact ⟨next, rfl, rfl⟩
      · rw [Bool.not_eq_true] at hnext
        rw [hnext] at h
        by_cases hearlier : covers next (trimEnd '.' stem) = true
        · rw [hearlier]
          refine ⟨next, rfl, ?_⟩
          have hor := covers_of_covers_trimEnd hcovers hearlier
          rw [hnext] at hor
          exact hor.resolve_left Bool.false_ne_true
        · rw [Bool.not_eq_true] at hearlier
          rw [hearlier]
          exact ih h

/-- A package that others are put into stays where it is. -/
theorem merged_merged (filter : PackageFilter) (package : String) :
    filter.merged (filter.merged package) = filter.merged package := by
  cases hfind : filter.merge.find? (covers · package) with
  | none =>
      have hself : filter.merged package = package := by
        unfold merged
        rw [hfind]
      rw [hself, hself]
  | some stem =>
      have hstem : filter.merged package = trimEnd '.' stem := by
        unfold merged
        rw [hfind]
      obtain ⟨first, hfirst, htrim⟩ := exists_find?_covers hfind
      rw [hstem]
      unfold merged
      rw [hfirst]
      exact htrim

/-- A merge stem takes in a package: the package starts with the stem, or is what the stem is
without dots at its end. -/
def TakesIn (stem package : String) : Prop :=
  stem.toList <+: package.toList ∨ package.toList = stem.toList.rdropWhile (· == '.')

/-- Where a package goes: the first stem that takes it in, without dots at its end, or itself if
there is none. -/
def GoesInto (filter : PackageFilter) (package target : String) : Prop :=
  (∃ before stem after, filter.merge = before ++ stem :: after
      ∧ (∀ earlier ∈ before, ¬TakesIn earlier package) ∧ TakesIn stem package
      ∧ target.toList = stem.toList.rdropWhile (· == '.'))
    ∨ (∀ stem ∈ filter.merge, ¬TakesIn stem package) ∧ target = package

theorem eq_trimEnd_iff {c : Char} {text trimmed : String} :
    trimmed = trimEnd c text ↔ trimmed.toList = text.toList.rdropWhile (· == c) := by
  rw [← String.toList_inj, trimEnd, String.toList_ofList]
  rfl

theorem covers_iff_takesIn {stem package : String} :
    covers stem package = true ↔ TakesIn stem package := by
  rw [covers_iff, eq_trimEnd_iff]
  rfl

theorem merged_eq_iff (filter : PackageFilter) (package target : String) :
    filter.merged package = target ↔ filter.GoesInto package target := by
  unfold merged GoesInto
  cases hfind : filter.merge.find? (covers · package) with
  | none =>
      have hnone : ∀ stem ∈ filter.merge, ¬TakesIn stem package := fun stem hstem htakes =>
        List.find?_eq_none.mp hfind stem hstem (covers_iff_takesIn.mpr htakes)
      refine ⟨fun heq => Or.inr ⟨hnone, heq.symm⟩, ?_⟩
      rintro (⟨before, stem, after, hmerge, -, htakes, -⟩ | ⟨-, heq⟩)
      · exact absurd htakes (hnone stem (by simp [hmerge]))
      · exact heq.symm
  | some stem =>
      obtain ⟨hcovers, before, after, hmerge, hbefore⟩ := List.find?_eq_some_iff_append.mp hfind
      have htakes := covers_iff_takesIn.mp hcovers
      have hearlier : ∀ earlier ∈ before, ¬TakesIn earlier package := by
        intro earlier hmem hearly
        have hnot := hbefore earlier hmem
        rw [covers_iff_takesIn.mpr hearly] at hnot
        cases hnot
      refine ⟨?_, ?_⟩
      · rintro rfl
        exact Or.inl ⟨before, stem, after, hmerge, hearlier, htakes, eq_trimEnd_iff.mp rfl⟩
      · rintro (⟨others, first, rest, hsplit, hothers, hfirst, htarget⟩ | ⟨hnone, -⟩)
        · -- Both are the first stem of the list that takes the package in.
          have hsame : filter.merge.find? (covers · package) = some first := by
            refine List.find?_eq_some_iff_append.mpr
              ⟨covers_iff_takesIn.mpr hfirst, others, rest, hsplit, fun other hother => ?_⟩
            have hnot := mt covers_iff_takesIn.mp (hothers other hother)
            simpa using hnot
          rw [hfind] at hsame
          obtain rfl := Option.some.inj hsame
          exact (eq_trimEnd_iff.mpr htarget).symm
        · exact absurd htakes (hnone stem (by simp [hmerge]))

/-- The filter that leaves out the same classes and puts no packages together. -/
def unmerged (filter : PackageFilter) : PackageFilter := { filter with merge := [] }

variable {filter : PackageFilter} {record : ClassRecord} {package : String}

theorem packageFor_eq_merged (filter : PackageFilter) (name : String) :
    filter.packageFor name = filter.merged (filter.unmerged.packageFor name) :=
  rfl

theorem annotates_iff_unmerged : filter.Annotates record package ↔
    ∃ p, filter.unmerged.Annotates record p ∧ filter.merged p = package := by
  refine ⟨?_, ?_⟩
  · rintro ⟨hignored, hinfo, hfor⟩
    exact ⟨_, ⟨hignored, hinfo, rfl⟩, hfor⟩
  · rintro ⟨p, ⟨hignored, hinfo, rfl⟩, hfor⟩
    exact ⟨hignored, hinfo, hfor⟩

end PackageFilter

/-! ### Classes -/

/-- The class in another package. -/
def ClassNode.inPackage (node : ClassNode) (package : PackageId) : ClassNode :=
  { node with package }

section Assemble

variable (filter : PackageFilter) (records : List ClassRecord) (sources : List SourceRecord)

theorem Declarations.classNames_unmerged :
    (ofRecords filter.unmerged records).classNames filter.unmerged
      = (ofRecords filter records).classNames filter := by
  apply IsAscending.ext
  · exact isAscending_classNames (named_ofRecords _ _) _
  · exact isAscending_classNames (named_ofRecords _ _) _
  · intro name
    rw [mem_classNames, mem_classNames]
    rfl

theorem Model.nodeOf_eq_inPackage (name : String) :
    Model.nodeOf filter records sources name
      = (Model.nodeOf filter.unmerged records sources name).inPackage
          (Model.nodeOf filter records sources name).package := by
  have hdeclared : filter.unmerged.declaration? records name = filter.declaration? records name :=
    rfl
  unfold Model.nodeOf Declarations.node
  rw [Declarations.find?_ofRecords, Declarations.find?_ofRecords, hdeclared,
    Declarations.classNames_unmerged]
  cases filter.declaration? records name <;> rfl

/-- A class of the model without merging, in the package that it goes into. -/
def Model.regroup (node : ClassNode) : ClassNode :=
  node.inPackage (Model.nodeOf filter records sources node.name).package

/-- The classes of the two models are the same, their packages apart. -/
theorem Model.classes_regroup : (Model.assemble filter records sources).classes
    = (Model.assemble filter.unmerged records sources).classes.map
        (Model.regroup filter records sources) := by
  show (List.map (Model.nodeOf filter records sources) _).toArray
    = (List.map (Model.nodeOf filter.unmerged records sources) _).toArray.map _
  rw [List.map_toArray, List.map_map, Declarations.classNames_unmerged]
  congr 1
  apply List.map_congr_left
  intro name _
  rw [Function.comp_apply, Model.regroup, Model.nodeOf_name]
  exact Model.nodeOf_eq_inPackage filter records sources name

/-! ### Packages -/

/-- The packages that a map sends to a name. -/
def Model.preimages (model : Model) (f : String → String) (name : String) : List Package :=
  model.packages.toList.filter fun package => f package.name == name

theorem Model.mem_preimages {model : Model} {f : String → String} {name : String} {part : Package} :
    part ∈ model.preimages f name ↔ part ∈ model.packages ∧ f part.name = name := by
  simp [Model.preimages]

theorem Model.nodup_preimages {model : Model} (h : model.WellFormed) (f : String → String)
    (name : String) : ((model.preimages f name).map (·.name)).Nodup :=
  h.packages_ascending.nodup.sublist (List.filter_sublist.map _)

variable {filter records sources}

/-- The package that a class has by itself goes into the one that the filter puts it into. -/
theorem Model.exists_preimage_of_class {node : ClassNode}
    (hnode : node ∈ (Model.assemble filter.unmerged records sources).classes) :
    ∃ part ∈ (Model.assemble filter.unmerged records sources).preimages filter.merged
        (filter.packageFor node.name), part.name = filter.unmerged.packageFor node.name := by
  obtain ⟨part, hpart, hname⟩ :=
    (Model.exists_package_iff filter.unmerged records sources).mpr (Or.inl ⟨node, hnode, rfl⟩)
  refine ⟨part, Model.mem_preimages.mpr ⟨hpart, ?_⟩, hname⟩
  rw [hname]
  rfl

/-- Annotations are carried for a package that goes into the one that has them. -/
theorem Model.exists_preimage_of_annotates {record : ClassRecord} {name : String}
    (hrecord : record ∈ records) (h : filter.Annotates record name) :
    ∃ part ∈ (Model.assemble filter.unmerged records sources).preimages filter.merged name,
      filter.unmerged.Annotates record part.name := by
  obtain ⟨p, hannotates, hmerged⟩ := PackageFilter.annotates_iff_unmerged.mp h
  obtain ⟨part, hpart, rfl⟩ := (Model.exists_package_iff filter.unmerged records sources).mpr
    (Or.inr ⟨record, hrecord, hannotates⟩)
  exact ⟨part, Model.mem_preimages.mpr ⟨hpart, hmerged⟩, hannotates⟩

theorem Model.mem_classes_merged {node : ClassNode} :
    node ∈ (Model.assemble filter records sources).classes ↔
      ∃ plain ∈ (Model.assemble filter.unmerged records sources).classes,
        Model.regroup filter records sources plain = node := by
  rw [Model.classes_regroup, Array.mem_map]

/-- The packages of the model are the images of those without merging. -/
theorem Model.exists_package_merged {name : String} :
    (∃ package ∈ (Model.assemble filter records sources).packages, package.name = name) ↔
      ∃ package ∈ (Model.assemble filter.unmerged records sources).packages,
        filter.merged package.name = name := by
  rw [Model.exists_package_iff]
  refine ⟨?_, ?_⟩
  · rintro (⟨node, hnode, rfl⟩ | ⟨record, hrecord, hannotates⟩)
    · obtain ⟨plain, hplain, rfl⟩ := Model.mem_classes_merged.mp hnode
      obtain ⟨part, hpart, -⟩ := Model.exists_preimage_of_class hplain
      exact ⟨part, Model.mem_preimages.mp hpart⟩
    · obtain ⟨part, hpart, -⟩ := Model.exists_preimage_of_annotates hrecord hannotates
      exact ⟨part, Model.mem_preimages.mp hpart⟩
  · rintro ⟨package, hpackage, rfl⟩
    rcases (Model.exists_package_iff filter.unmerged records sources).mp ⟨package, hpackage, rfl⟩
      with ⟨plain, hplain, hfor⟩ | ⟨record, hrecord, hannotates⟩
    · refine Or.inl ⟨_, Model.mem_classes_merged.mpr ⟨plain, hplain, rfl⟩, ?_⟩
      rw [← hfor]
      rfl
    · exact Or.inr ⟨record, hrecord,
        PackageFilter.annotates_iff_unmerged.mpr ⟨_, hannotates, rfl⟩⟩

theorem Model.classesIndexed_merged
    (h : (Model.assemble filter.unmerged records sources).ClassesIndexed) :
    (Model.assemble filter records sources).ClassesIndexed := by
  unfold Model.ClassesIndexed
  rw [Model.classes_regroup, Array.size_map]
  exact h

theorem Model.indexed_merged (h : (Model.assemble filter.unmerged records sources).Indexed) :
    (Model.assemble filter records sources).Indexed := by
  have hsub : (Model.assemble filter records sources).packages.toList.map Package.name
      ⊆ (Model.assemble filter.unmerged records sources).packages.toList.map
          fun package => filter.merged package.name := by
    intro name hname
    simp only [List.mem_map, Array.mem_toList_iff] at hname ⊢
    exact Model.exists_package_merged.mp hname
  have hle := ((Model.assemble_wellFormed filter records
    sources).packages_ascending.nodup.subperm hsub).length_le
  simp only [List.length_map, Array.length_toList] at hle
  exact Nat.le_trans hle h

/-! ### Uses -/

theorem Model.classUses_merged {c t : String} {count : UInt32} :
    (Model.assemble filter records sources).ClassUses c t count ↔
      (Model.assemble filter.unmerged records sources).ClassUses c t count := by
  unfold Model.ClassUses Model.class?
  simp only [Model.classes_regroup filter records sources, Array.mem_map, Array.getElem?_map,
    Option.map_map, exists_exists_and_eq_and]
  rfl

theorem Model.classIn_merged (h : (Model.assemble filter.unmerged records sources).Indexed)
    {c a : String} : (Model.assemble filter records sources).ClassIn c a ↔
      ∃ p, filter.merged p = a
        ∧ (Model.assemble filter.unmerged records sources).ClassIn c p := by
  simp only [Model.assemble_classIn_iff h, Model.assemble_classIn_iff (Model.indexed_merged h),
    Model.classes_regroup filter records sources, Array.mem_map, exists_exists_and_eq_and]
  refine ⟨?_, ?_⟩
  · rintro ⟨hclass, hfor⟩
    exact ⟨_, hfor, hclass, rfl⟩
  · rintro ⟨p, hmerged, hclass, rfl⟩
    exact ⟨hclass, hmerged⟩

/-- One package uses another if something that goes into the one uses something that goes into the
other. -/
theorem Model.uses_merged
    (hclasses : (Model.assemble filter.unmerged records sources).ClassesIndexed)
    (hpackages : (Model.assemble filter.unmerged records sources).Indexed) {a b : String} :
    (Model.assemble filter records sources).Uses a b ↔
      a ≠ b ∧ ∃ p q, filter.merged p = a ∧ filter.merged q = b
        ∧ (Model.assemble filter.unmerged records sources).Uses p q := by
  have hplain := Model.assemble_linked filter.unmerged records sources hclasses hpackages
  have hlinked := Model.assemble_linked filter records sources
    (Model.classesIndexed_merged hclasses) (Model.indexed_merged hpackages)
  rw [hlinked.uses_iff_classes]
  refine and_congr_right fun hne => ⟨?_, ?_⟩
  · rintro ⟨c, hc, t, count, ht, huses⟩
    obtain ⟨p, rfl, hcp⟩ := (Model.classIn_merged hpackages).mp hc
    obtain ⟨q, rfl, htq⟩ := (Model.classIn_merged hpackages).mp ht
    refine ⟨p, q, rfl, rfl, hplain.uses_iff_classes.mpr ⟨?_, c, hcp, t, count, htq, ?_⟩⟩
    · -- The two are different, since what they go into is.
      exact fun heq => hne (congrArg filter.merged heq)
    · exact Model.classUses_merged.mp huses
  · rintro ⟨p, q, rfl, rfl, huses⟩
    obtain ⟨-, c, hc, t, count, ht, huses⟩ := hplain.uses_iff_classes.mp huses
    exact ⟨c, (Model.classIn_merged hpackages).mpr ⟨p, rfl, hc⟩, t, count,
      (Model.classIn_merged hpackages).mpr ⟨q, rfl, ht⟩, Model.classUses_merged.mpr huses⟩

end Assemble

/-! ### Sizes -/

namespace PackageSizes

/-- The sizes without the count of lines. -/
def withoutLines (sizes : PackageSizes) : PackageSizes := { sizes with lines := none }

/-- The sizes of two packages together, without their lines. -/
def plus (a b : PackageSizes) : PackageSizes where
  classes := a.classes + b.classes
  codeSize := a.codeSize + b.codeSize
  totalSize := a.totalSize + b.totalSize

/-- The sizes of several packages together, without their lines. -/
def total (sizes : List PackageSizes) : PackageSizes := sizes.foldr plus {}

theorem withoutLines_append (nodes others : List ClassNode) :
    (ofMembers (nodes ++ others)).withoutLines = (ofMembers nodes).plus (ofMembers others) := by
  have hsum : ∀ (size : ClassNode → UInt64) (a b : List ClassNode),
      (a ++ b).foldl (fun total node => total + size node) 0
        = a.foldl (fun total node => total + size node) 0
          + b.foldl (fun total node => total + size node) 0 := by
    intro size a b
    rw [List.foldl_append, foldl_add_size size b, foldl_add_size size b 0, UInt64.zero_add]
  unfold withoutLines plus ofMembers
  simp only [List.filter_append, List.length_append, hsum]

theorem withoutLines_perm {nodes others : List ClassNode} (h : nodes.Perm others) :
    (ofMembers nodes).withoutLines = (ofMembers others).withoutLines := by
  have hperm := h.filter (·.analyzed)
  have hsum : ∀ size : ClassNode → UInt64,
      (nodes.filter (·.analyzed)).foldl (fun total node => total + size node) 0
        = (others.filter (·.analyzed)).foldl (fun total node => total + size node) 0 := by
    intro size
    apply hperm.foldl_eq'
    intro node _ other _ total
    rw [UInt64.add_assoc, UInt64.add_comm (size node), ← UInt64.add_assoc]
  unfold withoutLines ofMembers
  simp only [hsum, hperm.length_eq]

theorem withoutLines_flatMap {ι : Type} (parts : List ι) (nodes : ι → List ClassNode) :
    (ofMembers (parts.flatMap nodes)).withoutLines
      = total (parts.map fun part => ofMembers (nodes part)) := by
  have hplus : ∀ a b : PackageSizes, a.plus b = a.plus b.withoutLines := fun _ _ => rfl
  induction parts with
  | nil => rfl
  | cons part rest ih =>
      rw [List.flatMap_cons, withoutLines_append, hplus, ih]
      rfl

/-- The sizes do not depend on the packages that the classes refer to. -/
theorem ofMembers_inPackage (owner : ClassNode → PackageId) (nodes : List ClassNode) :
    ofMembers (nodes.map fun node => node.inPackage (owner node)) = ofMembers nodes := by
  unfold ofMembers
  simp only [List.filter_map, List.length_map, List.foldl_map]
  rfl

end PackageSizes

/-- Collecting the items of one key after another reorders them. -/
theorem perm_flatMap_filter {α ι : Type} (key : α → String) (name : ι → String) (items : List α)
    {parts : List ι} (hnodup : (parts.map name).Nodup) :
    (parts.flatMap fun part => items.filter fun item => key item == name part).Perm
      (items.filter fun item => (parts.map name).contains (key item)) := by
  induction parts with
  | nil => simp
  | cons part rest ih =>
      rw [List.map_cons, List.nodup_cons] at hnodup
      rw [List.flatMap_cons]
      refine ((ih hnodup.2).append_left _).trans ?_
      refine List.Perm.trans ?_ (List.filter_append_perm (fun item => key item == name part) _)
      rw [List.filter_filter, List.filter_filter]
      refine List.Perm.of_eq (congr (congrArg _ ?_) ?_)
      · apply List.filter_congr
        intro item _
        by_cases hkey : key item = name part <;> simp [hkey]
      · apply List.filter_congr
        intro item _
        by_cases hkey : key item = name part
        · simp [hkey, hnodup.1]
        · simp [hkey]

/-! ### What is gathered -/

namespace Model

variable {filter : PackageFilter} {records : List ClassRecord} {sources : List SourceRecord}
  {package : Package}

/-- A class goes into a package if its own package does. -/
theorem contains_preimages {node : ClassNode}
    (hnode : node ∈ (assemble filter.unmerged records sources).classes) (name : String) :
    (((assemble filter.unmerged records sources).preimages filter.merged name).map
        (·.name)).contains (filter.unmerged.packageFor node.name)
      = (filter.packageFor node.name == name) := by
  rw [Bool.eq_iff_iff, List.contains_iff_mem, List.mem_map, beq_iff_eq]
  refine ⟨?_, ?_⟩
  · rintro ⟨part, hpart, hname⟩
    rw [PackageFilter.packageFor_eq_merged, ← hname]
    exact (mem_preimages.mp hpart).2
  · rintro rfl
    exact exists_preimage_of_class hnode

/-- The sizes of a package are those of all that is put into it. -/
theorem sizes_merged (hidx : (assemble filter.unmerged records sources).Indexed)
    (h : package ∈ (assemble filter records sources).packages) :
    package.sizes.withoutLines = PackageSizes.total
      (((assemble filter.unmerged records sources).preimages filter.merged package.name).map
        (·.sizes)) := by
  obtain ⟨i, hget⟩ := Array.mem_iff_getElem?.mp h
  let plain := (assemble filter.unmerged records sources).classes.toList
  let parts := (assemble filter.unmerged records sources).preimages filter.merged package.name
  have hpart : ∀ part ∈ parts, PackageSizes.ofMembers
      (plain.filter fun node => filter.unmerged.packageFor node.name == part.name)
        = part.sizes := by
    intro part hpart
    obtain ⟨j, hj⟩ := Array.mem_iff_getElem?.mp (mem_preimages.mp hpart).1
    rw [sizes_eq_ofMembers filter.unmerged records sources hj,
      owned_eq_filter filter.unmerged records sources hidx hj]
  have hperm : (parts.flatMap fun part =>
      plain.filter fun node => filter.unmerged.packageFor node.name == part.name).Perm
        (plain.filter fun node => filter.packageFor node.name == package.name) := by
    refine (perm_flatMap_filter _ _ _ (nodup_preimages (assemble_wellFormed filter.unmerged
      records sources) _ _)).trans (List.Perm.of_eq (List.filter_congr ?_))
    intro node hnode
    exact contains_preimages (Array.mem_toList_iff.mp hnode) package.name
  calc package.sizes.withoutLines
      = (PackageSizes.ofMembers ((assemble filter records sources).owned i)).withoutLines := by
        rw [sizes_eq_ofMembers filter records sources hget]
    _ = (PackageSizes.ofMembers
          (plain.filter fun node => filter.packageFor node.name == package.name)).withoutLines := by
        rw [owned_eq_filter filter records sources (indexed_merged hidx) hget, classes_regroup,
          Array.toList_map, List.filter_map]
        exact congrArg _ (PackageSizes.ofMembers_inPackage _ _)
    _ = (PackageSizes.ofMembers (parts.flatMap fun part => plain.filter fun node =>
          filter.unmerged.packageFor node.name == part.name)).withoutLines :=
        (PackageSizes.withoutLines_perm hperm).symm
    _ = PackageSizes.total (parts.map fun part => PackageSizes.ofMembers
          (plain.filter fun node => filter.unmerged.packageFor node.name == part.name)) :=
        PackageSizes.withoutLines_flatMap _ _
    _ = PackageSizes.total (parts.map (·.sizes)) := by
        rw [List.map_congr_left hpart]

theorem annotations_merged (h : package ∈ (assemble filter records sources).packages) :
    package.annotations = Ascending.ofList
      (((assemble filter.unmerged records sources).preimages filter.merged package.name).flatMap
        (·.annotations)) := by
  rw [annotations_eq filter records sources h, eq_comm, ofList_eq_iff]
  refine ⟨Declarations.isAscending_annotations_ofRecords filter records package.name, ?_⟩
  intro annotation
  rw [Declarations.mem_annotations_ofRecords, List.mem_flatMap]
  refine ⟨?_, ?_⟩
  · rintro ⟨part, hpart, hmem⟩
    obtain ⟨hpart, hname⟩ := mem_preimages.mp hpart
    rw [annotations_eq filter.unmerged records sources hpart,
      Declarations.mem_annotations_ofRecords] at hmem
    obtain ⟨record, hrecord, hannotates, hmem⟩ := hmem
    exact ⟨record, hrecord, PackageFilter.annotates_iff_unmerged.mpr ⟨_, hannotates, hname⟩, hmem⟩
  · rintro ⟨record, hrecord, hannotates, hmem⟩
    obtain ⟨part, hpart, hannotates⟩ := exists_preimage_of_annotates hrecord hannotates
    refine ⟨part, hpart, ?_⟩
    rw [annotations_eq filter.unmerged records sources (mem_preimages.mp hpart).1,
      Declarations.mem_annotations_ofRecords]
    exact ⟨record, hrecord, hannotates, hmem⟩

/-- A package was analyzed if its annotations were, or a class that the filter puts into it. -/
theorem analyzed_iff_exists (hidx : (assemble filter records sources).Indexed)
    (h : package ∈ (assemble filter records sources).packages) : package.analyzed = true ↔
      (∃ record ∈ records, filter.Annotates record package.name)
        ∨ ∃ node ∈ (assemble filter records sources).classes,
          filter.packageFor node.name = package.name ∧ node.analyzed = true := by
  obtain ⟨i, hget⟩ := Array.mem_iff_getElem?.mp h
  rw [analyzed_eq_any filter records sources hget, Bool.or_eq_true,
    Declarations.isSome_find?_packageAnnotations,
    owned_eq_filter filter records sources hidx hget, List.any_eq_true]
  simp only [List.mem_filter, Array.mem_toList_iff, beq_iff_eq, and_assoc]

theorem analyzed_merged (hidx : (assemble filter.unmerged records sources).Indexed)
    (h : package ∈ (assemble filter records sources).packages) :
    package.analyzed = ((assemble filter.unmerged records sources).preimages filter.merged
      package.name).any (·.analyzed) := by
  rw [Bool.eq_iff_iff, analyzed_iff_exists (indexed_merged hidx) h, List.any_eq_true]
  refine ⟨?_, ?_⟩
  · rintro (⟨record, hrecord, hannotates⟩ | ⟨node, hnode, hfor, hanalyzed⟩)
    · obtain ⟨part, hpart, hannotates⟩ := exists_preimage_of_annotates hrecord hannotates
      exact ⟨part, hpart, (analyzed_iff_exists hidx (mem_preimages.mp hpart).1).mpr
        (Or.inl ⟨record, hrecord, hannotates⟩)⟩
    · obtain ⟨plain, hplain, rfl⟩ := mem_classes_merged.mp hnode
      obtain ⟨part, hpart, hname⟩ := exists_preimage_of_class hplain
      rw [← hfor]
      exact ⟨part, hpart, (analyzed_iff_exists hidx (mem_preimages.mp hpart).1).mpr
        (Or.inr ⟨plain, hplain, hname.symm, hanalyzed⟩)⟩
  · rintro ⟨part, hpart, hanalyzed⟩
    obtain ⟨hpart, hname⟩ := mem_preimages.mp hpart
    rcases (analyzed_iff_exists hidx hpart).mp hanalyzed with
      ⟨record, hrecord, hannotates⟩ | ⟨plain, hplain, hfor, hanalyzed⟩
    · exact Or.inl ⟨record, hrecord, PackageFilter.annotates_iff_unmerged.mpr
        ⟨_, hannotates, hname⟩⟩
    · refine Or.inr ⟨_, mem_classes_merged.mpr ⟨plain, hplain, rfl⟩, ?_, hanalyzed⟩
      rw [← hname, ← hfor]
      rfl

/-! ### The quotient -/

/-- What a model is to be that puts packages together, given the model that does not: its quotient by
a map of packages.  What is found by following references to packages or classes needs that
references tell them apart. -/
structure IsQuotient (quotient plain : Model) (f : String → String) : Prop where
  classes : ∃ owner : ClassNode → PackageId,
    quotient.classes = plain.classes.map fun node => node.inPackage (owner node)
  owners : plain.Indexed → ∀ (i : Nat) (node node' : ClassNode), plain.classes[i]? = some node →
    quotient.classes[i]? = some node' → ∃ package package',
      plain.package? node.package = some package ∧ quotient.package? node'.package = some package'
        ∧ package'.name = f package.name
  packages : ∀ name, (∃ package ∈ quotient.packages, package.name = name) ↔
    ∃ package ∈ plain.packages, f package.name = name
  uses : plain.ClassesIndexed → plain.Indexed → ∀ a b, quotient.Uses a b ↔
    a ≠ b ∧ ∃ p q, f p = a ∧ f q = b ∧ plain.Uses p q
  sizes : plain.Indexed → ∀ package ∈ quotient.packages, package.sizes.withoutLines
    = PackageSizes.total ((plain.preimages f package.name).map (·.sizes))
  annotations : ∀ package ∈ quotient.packages, package.annotations
    = Ascending.ofList ((plain.preimages f package.name).flatMap (·.annotations))
  analyzed : plain.Indexed → ∀ package ∈ quotient.packages, package.analyzed
    = (plain.preimages f package.name).any (·.analyzed)

theorem owners_merged (hidx : (assemble filter.unmerged records sources).Indexed) {i : Nat}
    {node node' : ClassNode}
    (hnode : (assemble filter.unmerged records sources).classes[i]? = some node)
    (hnode' : (assemble filter records sources).classes[i]? = some node') :
    ∃ package package', (assemble filter.unmerged records sources).package? node.package
        = some package
      ∧ (assemble filter records sources).package? node'.package = some package'
      ∧ package'.name = filter.merged package.name := by
  have hname := package_of_class filter.unmerged records sources hidx
    (Array.mem_of_getElem? hnode)
  have hname' := package_of_class filter records sources (indexed_merged hidx)
    (Array.mem_of_getElem? hnode')
  obtain ⟨package, hpackage, hpackageName⟩ := Option.map_eq_some_iff.mp hname
  obtain ⟨package', hpackage', hpackageName'⟩ := Option.map_eq_some_iff.mp hname'
  refine ⟨package, package', hpackage, hpackage', ?_⟩
  rw [classes_regroup, Array.getElem?_map, hnode, Option.map_some] at hnode'
  obtain rfl := Option.some.inj hnode'
  rw [hpackageName, hpackageName']
  rfl

/-- **Putting packages together makes a quotient of the model.**  The map of packages follows the
first stem that takes a package in, it leaves alone what it has put together, and what the model
says of packages, their lines apart, is what it would say without merging, seen through that map. -/
theorem assemble_isQuotient (filter : PackageFilter) (records : List ClassRecord)
    (sources : List SourceRecord) :
    (∀ package target, filter.merged package = target ↔ filter.GoesInto package target)
      ∧ (∀ package, filter.merged (filter.merged package) = filter.merged package)
      ∧ (assemble filter records sources).IsQuotient
          (assemble filter.unmerged records sources) filter.merged :=
  ⟨filter.merged_eq_iff, filter.merged_merged, {
    classes := ⟨_, classes_regroup filter records sources⟩
    owners := fun hidx _ _ _ hnode hnode' => owners_merged hidx hnode hnode'
    packages := fun _ => exists_package_merged
    uses := fun hclasses hpackages _ _ => uses_merged hclasses hpackages
    sizes := fun hidx _ hpackage => sizes_merged hidx hpackage
    annotations := fun _ hpackage => annotations_merged hpackage
    analyzed := fun hidx _ hpackage => analyzed_merged hidx hpackage }⟩

/-- A library of two packages, one of which uses the other and the application. -/
def libraryRecords : List ClassRecord :=
  [{ name := "app.Main", codeSize := 10, references := [("lib.core.Store", 1)] },
    { name := "lib.core.Store", codeSize := 3, references := [("lib.ui.View", 2)] },
    { name := "lib.ui.View", codeSize := 4, references := [("app.Main", 1)] },
    { name := "lib.ui.package-info", annotations := ["lib.Stable"] }]

/-- In the quotient the library is one package, and what its parts use of each other is gone. -/
theorem library_isQuotient :
    (assemble sampleFilter.unmerged libraryRecords []).ClassesIndexed
      ∧ (assemble sampleFilter.unmerged libraryRecords []).Indexed
      ∧ (assemble sampleFilter libraryRecords []).IsQuotient
          (assemble sampleFilter.unmerged libraryRecords []) sampleFilter.merged
      ∧ (assemble sampleFilter libraryRecords []).Uses "lib" "app"
      ∧ (assemble sampleFilter libraryRecords []).packages.toList.map
          (fun package => (package.name, package.sizes.codeSize, package.annotations))
        = [("app", 10, []), ("lib", 7, ["lib.Stable"])] := by
  have hclasses : (assemble sampleFilter.unmerged libraryRecords []).ClassesIndexed := by
    unfold ClassesIndexed
    decide +kernel
  have hpackages : (assemble sampleFilter.unmerged libraryRecords []).Indexed := by
    unfold Indexed
    decide +kernel
  have huses : (assemble sampleFilter.unmerged libraryRecords []).Uses "lib.ui" "app" := by
    unfold Uses
    decide +kernel
  obtain ⟨-, -, hquotient⟩ := assemble_isQuotient sampleFilter libraryRecords []
  refine ⟨hclasses, hpackages, hquotient, ?_, by decide +kernel⟩
  exact (hquotient.uses hclasses hpackages "lib" "app").mpr
    ⟨by decide, "lib.ui", "app", by decide +kernel, by decide +kernel, huses⟩

end Model

end PackageAudit
