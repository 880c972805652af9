/-
Lists of class records that make the same model.

Of the list that a model is put together from it keeps two things: under each name the first
record that declares it, and for each package the annotations that are carried for it.  Lists
that agree on these make the same model, with the same positions in its tables.  Hence the
order of the records does not matter unless a class is declared twice, and a record that
repeats a name leaves no trace, not even of the classes that it mentions.

For the same reason it makes no difference whether classes are left out while the model is put
together or taken out of the records before.  The one thing to see is that a class that is
left out has no position, so that what mentions it finds nothing to refer to.
-/
import PackageAudit.Proofs.Model.Growth

namespace PackageAudit

open Ascending

/-! ### What a model keeps of its records -/

attribute [ext] Declarations Model

section Kept

variable {filter filter' : PackageFilter} {records records' : List ClassRecord}

/-- The table of annotations is determined by which packages have any, and which these are. -/
theorem Declarations.packageAnnotations_congr
    (hknown : ∀ package, (∃ record ∈ records, filter.Annotates record package) ↔
      ∃ record ∈ records', filter'.Annotates record package)
    (hcarried : ∀ package annotation,
      (∃ record ∈ records, filter.Annotates record package ∧ annotation ∈ record.annotations) ↔
        ∃ record ∈ records', filter'.Annotates record package
          ∧ annotation ∈ record.annotations) :
    (ofRecords filter records).packageAnnotations
      = (ofRecords filter' records').packageAnnotations := by
  apply IsTable.ext (isTable_packageAnnotations_ofRecords filter records)
    (isTable_packageAnnotations_ofRecords filter' records')
  intro package
  have hsome := (isSome_find?_packageAnnotations filter records).trans ((hknown package).trans
    (isSome_find?_packageAnnotations filter' records').symm)
  have hsame : (ofRecords filter records).annotations package
      = (ofRecords filter' records').annotations package := by
    apply (isAscending_annotations_ofRecords filter records package).ext
      (isAscending_annotations_ofRecords filter' records' package)
    intro annotation
    rw [mem_annotations_ofRecords, mem_annotations_ofRecords, hcarried]
  unfold annotations at hsame
  -- Both have the package or neither has, and what they have for it is the same set.
  cases hfind : find? package (ofRecords filter records).packageAnnotations with
  | none =>
      rw [hfind] at hsome
      cases hfind' : find? package (ofRecords filter' records').packageAnnotations with
      | none => rfl
      | some names => simp [hfind'] at hsome
  | some names =>
      rw [hfind] at hsome
      cases hfind' : find? package (ofRecords filter' records').packageAnnotations with
      | none => simp [hfind'] at hsome
      | some names' =>
          rw [hfind, hfind'] at hsame
          exact congrArg some hsame

/-- Records that declare the same classes and carry the same annotations are taken up alike. -/
theorem Declarations.ofRecords_congr
    (hdeclared : ∀ name, filter.declaration? records name = filter.declaration? records' name)
    (hcarriers : ∀ record package, filter.Annotates record package →
      (record ∈ records ↔ record ∈ records')) :
    ofRecords filter records = ofRecords filter records' := by
  apply Declarations.ext
  · apply IsTable.ext (named_ofRecords filter records).table
      (named_ofRecords filter records').table
    intro name
    rw [find?_ofRecords, find?_ofRecords, hdeclared]
  · apply packageAnnotations_congr
    · intro package
      refine exists_congr fun record => and_congr_left fun h => ?_
      exact hcarriers record package h
    · intro package annotation
      refine exists_congr fun record => and_congr_left fun h => ?_
      exact hcarriers record package h.1

/-- A model is its names, the nodes of its classes and the annotations of its packages. -/
theorem Model.assemble_congr {sources : List SourceRecord}
    (hclasses : (Declarations.ofRecords filter records).classNames filter
      = (Declarations.ofRecords filter' records').classNames filter')
    (hpackages : (Declarations.ofRecords filter records).packageNames filter
        ((Declarations.ofRecords filter records).classNames filter)
      = (Declarations.ofRecords filter' records').packageNames filter'
        ((Declarations.ofRecords filter' records').classNames filter'))
    (hannotations : (Declarations.ofRecords filter records).packageAnnotations
      = (Declarations.ofRecords filter' records').packageAnnotations)
    (hnodes : ∀ name, Model.nodeOf filter records sources name
      = Model.nodeOf filter' records' sources name) :
    Model.assemble filter records sources = Model.assemble filter' records' sources := by
  have hsame : (Model.assemble filter records sources).classes
      = (Model.assemble filter' records' sources).classes := by
    show (List.map (Model.nodeOf filter records sources) _).toArray
      = (List.map (Model.nodeOf filter' records' sources) _).toArray
    rw [hclasses, List.map_congr_left fun name _ => hnodes name]
  apply Model.ext
  · rw [Model.assemble_packages, Model.assemble_packages, hpackages, hsame]
    congr 1
    apply List.map_congr_left
    intro entry _
    show Package.derive _ _ _ _ = Package.derive _ _ _ _
    unfold Package.derive
    rw [hannotations]
  · exact hsame

end Kept

/-! ### Order and repetition -/

namespace PackageFilter

/-- Whether no class is declared twice. -/
def DeclaresOnce (filter : PackageFilter) (records : List ClassRecord) : Prop :=
  ((records.filter filter.declares).map (·.name)).Nodup

/-- Whether a record adds nothing to some others: it is about a class, and the class is left out or
one of them has its name. -/
def IsRepeated (filter : PackageFilter) (records : List ClassRecord) (record : ClassRecord) : Prop :=
  record.isPackageInfo = false
    ∧ (filter.isIgnored record.name = true ∨ record.name ∈ records.map (·.name))

variable {filter : PackageFilter} {records others more : List ClassRecord} {record : ClassRecord}
  {name : String}

/-- If no class is declared twice, then what declares a class is its declaration. -/
theorem DeclaresOnce.declaration?_eq_some_iff (h : filter.DeclaresOnce records) :
    filter.declaration? records name = some record ↔
      record ∈ records ∧ filter.declares record = true ∧ record.name = name := by
  have hfound : ∀ {first : ClassRecord}, filter.declaration? records name = some first →
      first ∈ records ∧ filter.declares first = true ∧ first.name = name := by
    intro first hfirst
    have hdeclares := List.find?_some hfirst
    rw [Bool.and_eq_true, beq_iff_eq] at hdeclares
    exact ⟨mem_of_declaration? hfirst, hdeclares⟩
  refine ⟨hfound, ?_⟩
  rintro ⟨hmem, hdeclares, hname⟩
  cases hfirst : filter.declaration? records name with
  | none =>
      have hnone := List.find?_eq_none.mp hfirst record hmem
      simp [hdeclares, hname] at hnone
  | some first =>
      obtain ⟨hmem', hdeclares', hname'⟩ := hfound hfirst
      rw [List.inj_on_of_nodup_map h (List.mem_filter.mpr ⟨hmem', hdeclares'⟩)
        (List.mem_filter.mpr ⟨hmem, hdeclares⟩) (hname'.trans hname.symm)]

theorem DeclaresOnce.perm (h : filter.DeclaresOnce records) (hperm : records.Perm others) :
    filter.DeclaresOnce others :=
  ((hperm.filter filter.declares).map ClassRecord.name).nodup_iff.mp h

theorem DeclaresOnce.declaration?_perm (h : filter.DeclaresOnce records)
    (hperm : records.Perm others) (name : String) :
    filter.declaration? others name = filter.declaration? records name := by
  apply Option.ext
  intro record
  rw [(h.perm hperm).declaration?_eq_some_iff, h.declaration?_eq_some_iff, hperm.mem_iff]

/-- A name that a repeated record could declare is declared already. -/
theorem declaration?_append_repeated (h : ∀ record ∈ more, filter.IsRepeated records record)
    (name : String) :
    filter.declaration? (records ++ more) name = filter.declaration? records name := by
  rw [declaration?_append]
  cases hfirst : filter.declaration? records name with
  | some first => rfl
  | none =>
      rw [Option.none_or]
      apply List.find?_eq_none.mpr
      intro record hrecord hdeclares
      simp only [declares, Bool.and_eq_true, Bool.not_eq_true', beq_iff_eq] at hdeclares
      obtain ⟨⟨hignored, hinfo⟩, rfl⟩ := hdeclares
      obtain ⟨-, hleft | hknown⟩ := h record hrecord
      · rw [hignored] at hleft
        exact Bool.false_ne_true hleft
      · obtain ⟨first, hmem, hname⟩ := List.mem_map.mp hknown
        have hnone := List.find?_eq_none.mp hfirst first hmem
        have hinfo' : first.isPackageInfo = false := by
          rw [← hinfo]
          unfold ClassRecord.isPackageInfo
          rw [hname]
        simp [declares, hname, hignored, hinfo'] at hnone

end PackageFilter

/-- **The order of the records does not matter, and repeated records do not either.**  The first is so
if no class is declared twice; of several declarations of a class the first counts. -/
theorem Model.assemble_unordered (filter : PackageFilter) (records : List ClassRecord)
    (sources : List SourceRecord) :
    (filter.DeclaresOnce records → ∀ others, records.Perm others →
      Model.assemble filter others sources = Model.assemble filter records sources)
    ∧ ∀ more, (∀ record ∈ more, filter.IsRepeated records record) →
      Model.assemble filter (records ++ more) sources = Model.assemble filter records sources := by
  refine ⟨?_, ?_⟩
  · intro honce others hperm
    have hsame : Declarations.ofRecords filter others = Declarations.ofRecords filter records := by
      apply Declarations.ofRecords_congr (honce.declaration?_perm hperm)
      intro record package _
      exact hperm.mem_iff.symm
    unfold Model.assemble
    rw [hsame]
  · intro more hrepeated
    have hsame : Declarations.ofRecords filter (records ++ more)
        = Declarations.ofRecords filter records := by
      apply Declarations.ofRecords_congr (PackageFilter.declaration?_append_repeated hrepeated)
      intro record package hannotates
      rw [List.mem_append, or_iff_left]
      -- What carries annotations is not about a class.
      intro hmem
      have hinfo := (hrepeated record hmem).1
      rw [hannotates.2.1] at hinfo
      exact Bool.noConfusion hinfo
    unfold Model.assemble
    rw [hsame]

/-- Two parts of a library that carry annotations and go into one package. -/
def Model.annotatedRecords : List ClassRecord :=
  [{ name := "lib.ui.package-info", annotations := ["lib.Stable"] },
    { name := "app.Main", references := [("lib.core.Store", 2)] },
    { name := "lib.core.package-info", annotations := ["lib.Checked", "lib.Stable"] }]

/-- Another declaration of a class, and a class of the platform. -/
def Model.repeatedRecords : List ClassRecord :=
  [{ name := "app.Main", references := [("other.Thing", 1)] }, { name := "java.lang.String" }]

theorem Model.annotated_unordered :
    sampleFilter.DeclaresOnce annotatedRecords
      ∧ (∀ record ∈ repeatedRecords, sampleFilter.IsRepeated annotatedRecords record)
      ∧ Model.assemble sampleFilter annotatedRecords.reverse []
        = Model.assemble sampleFilter annotatedRecords []
      ∧ Model.assemble sampleFilter (annotatedRecords ++ repeatedRecords) []
        = Model.assemble sampleFilter annotatedRecords []
      ∧ (Model.assemble sampleFilter annotatedRecords []).packages.toList.map
          (fun package => (package.name, package.annotations))
        = [("app", []), ("lib", ["lib.Checked", "lib.Stable"])] := by
  have honce : sampleFilter.DeclaresOnce annotatedRecords := by
    unfold PackageFilter.DeclaresOnce
    decide +kernel
  have hrepeated : ∀ record ∈ repeatedRecords,
      sampleFilter.IsRepeated annotatedRecords record := by
    unfold PackageFilter.IsRepeated
    decide +kernel
  obtain ⟨hperm, happend⟩ := Model.assemble_unordered sampleFilter annotatedRecords []
  exact ⟨honce, hrepeated, hperm honce _ (List.reverse_perm _).symm, happend _ hrepeated,
    by decide +kernel⟩

/-! ### Leaving classes out -/

namespace PackageFilter

/-- The filter that puts packages together as before and leaves no class out. -/
def keepingAll (filter : PackageFilter) : PackageFilter := { filter with ignore := [] }

/-- A record without its mentions of classes that are left out. -/
def prune (filter : PackageFilter) (record : ClassRecord) : ClassRecord :=
  { record with
    references := record.references.filter fun reference => !filter.isIgnored reference.1 }

/-- The records without the classes that are left out and without all mention of them. -/
def pruneAll (filter : PackageFilter) (records : List ClassRecord) : List ClassRecord :=
  (records.filter fun record => !filter.isIgnored record.name).map filter.prune

variable {filter : PackageFilter} {records : List ClassRecord} {name : String}

theorem isIgnored_iff (filter : PackageFilter) (name : String) :
    filter.isIgnored name = true ↔ ∃ stem ∈ filter.ignore, stem.toList <+: name.toList := by
  simp [isIgnored, startsWith]

theorem isIgnored_eq_false_iff :
    filter.isIgnored name = false ↔ ∀ stem ∈ filter.ignore, startsWith name stem = false := by
  simp [isIgnored]

theorem declaration?_pruneAll (filter : PackageFilter) (records : List ClassRecord)
    (name : String) : filter.keepingAll.declaration? (filter.pruneAll records) name
      = (filter.declaration? records name).map filter.prune := by
  unfold declaration? pruneAll
  rw [List.find?_map, List.find?_filter]
  congr 2
  funext record
  show decide ((!filter.isIgnored record.name) = true
    ∧ (!record.isPackageInfo && record.name == name) = true) = _
  rw [Bool.eq_iff_iff]
  simp [declares, and_assoc]

theorem exists_annotates_pruneAll {package : String} {P : List String → Prop} :
    (∃ record ∈ filter.pruneAll records, filter.keepingAll.Annotates record package
        ∧ P record.annotations) ↔
      ∃ record ∈ records, filter.Annotates record package ∧ P record.annotations := by
  unfold pruneAll
  simp only [List.mem_map, List.mem_filter, Bool.not_eq_true', exists_exists_and_eq_and]
  refine exists_congr fun record => ?_
  refine ⟨?_, ?_⟩
  · rintro ⟨⟨hmem, hignored⟩, ⟨-, hinfo, hfor⟩, hP⟩
    exact ⟨hmem, ⟨hignored, hinfo, hfor⟩, hP⟩
  · rintro ⟨hmem, ⟨hignored, hinfo, hfor⟩, hP⟩
    exact ⟨⟨hmem, hignored⟩, ⟨rfl, hinfo, hfor⟩, hP⟩

theorem mentioned_pruneAll : filter.keepingAll.Mentioned (filter.pruneAll records) name ↔
    filter.isIgnored name = false ∧ filter.Mentioned records name := by
  unfold Mentioned
  simp only [declaration?_pruneAll, Option.map_eq_some_iff, List.mem_map]
  refine ⟨?_, ?_⟩
  · rintro ⟨user, -, ⟨record, hdeclared, rfl⟩, reference, hreference, rfl⟩
    obtain ⟨hmem, hignored⟩ := List.mem_filter.mp hreference
    exact ⟨by simpa using hignored, user, record, hdeclared, reference, hmem, rfl⟩
  · rintro ⟨hignored, user, record, hdeclared, reference, hmem, rfl⟩
    refine ⟨user, _, ⟨record, hdeclared, rfl⟩, reference, ?_, rfl⟩
    exact List.mem_filter.mpr ⟨hmem, by simp [hignored]⟩

end PackageFilter

theorem Declarations.classNames_pruneAll (filter : PackageFilter) (records : List ClassRecord) :
    (ofRecords filter.keepingAll (filter.pruneAll records)).classNames filter.keepingAll
      = (ofRecords filter records).classNames filter := by
  apply IsAscending.ext
  · exact isAscending_classNames (named_ofRecords _ _) _
  · exact isAscending_classNames (named_ofRecords _ _) _
  · intro name
    rw [mem_classNames, mem_classNames, PackageFilter.declaration?_pruneAll,
      PackageFilter.mentioned_pruneAll, Option.isSome_map]
    have hkept : filter.keepingAll.isIgnored name = false := rfl
    rw [hkept, eq_self, true_and]

theorem Declarations.packageAnnotations_pruneAll (filter : PackageFilter)
    (records : List ClassRecord) :
    (ofRecords filter.keepingAll (filter.pruneAll records)).packageAnnotations
      = (ofRecords filter records).packageAnnotations := by
  apply packageAnnotations_congr
  · intro package
    simpa using PackageFilter.exists_annotates_pruneAll (P := fun _ => True)
  · intro package annotation
    exact PackageFilter.exists_annotates_pruneAll

theorem Declarations.packageNames_pruneAll (filter : PackageFilter) (records : List ClassRecord)
    (classNames : List String) :
    (ofRecords filter.keepingAll (filter.pruneAll records)).packageNames filter.keepingAll classNames
      = (ofRecords filter records).packageNames filter classNames := by
  unfold packageNames
  rw [packageAnnotations_pruneAll]
  rfl

/-- No class of the model is one that is left out. -/
theorem Declarations.not_isIgnored_of_mem {filter : PackageFilter} {records : List ClassRecord}
    {name : String} (h : name ∈ (ofRecords filter records).classNames filter) :
    filter.isIgnored name = false := by
  rcases (mem_classNames filter records).mp h with hdeclared | hmentioned
  · obtain ⟨record, hdeclared⟩ := Option.isSome_iff_exists.mp hdeclared
    exact PackageFilter.not_isIgnored_of_declaration? hdeclared
  · exact hmentioned.1

/-- What has no position among the classes is not used, so it need not be mentioned. -/
theorem ClassNode.ofRecord_prune {filter : PackageFilter} {classNames : List String}
    (h : ∀ name ∈ classNames, filter.isIgnored name = false) (sources : List SourceRecord)
    (package : PackageId) (record : ClassRecord) :
    ClassNode.ofRecord classNames sources package (filter.prune record)
      = ClassNode.ofRecord classNames sources package record := by
  have hposition : ∀ {t : String}, filter.isIgnored t = true → position? classNames t = none := by
    intro t ht
    cases hi : position? classNames t with
    | none => rfl
    | some i =>
        have hkept := h t (List.mem_of_getElem? (position?_eq_some hi))
        rw [ht] at hkept
        exact Bool.noConfusion hkept
  unfold ClassNode.ofRecord PackageFilter.prune
  congr 2
  rw [List.filter_filter, List.filterMap_filter, List.filterMap_filter]
  congr 1
  funext reference
  by_cases hignored : filter.isIgnored reference.1 = true
  · simp [hignored, hposition hignored]
  · simp [hignored]

theorem Model.nodeOf_pruneAll (filter : PackageFilter) (records : List ClassRecord)
    (sources : List SourceRecord) (name : String) :
    Model.nodeOf filter.keepingAll (filter.pruneAll records) sources name
      = Model.nodeOf filter records sources name := by
  unfold Model.nodeOf Declarations.node
  rw [Declarations.find?_ofRecords, Declarations.find?_ofRecords,
    PackageFilter.declaration?_pruneAll, Declarations.classNames_pruneAll,
    Declarations.packageNames_pruneAll]
  cases filter.declaration? records name with
  | none => rfl
  | some record =>
      exact ClassNode.ofRecord_prune (fun _ => Declarations.not_isIgnored_of_mem) sources _ record

/-- **Leaving classes out comes to the same as taking them out of the records first.**  These are
the classes whose names start with a stem that is ignored; no class of the model does, and no use
leads to one that does. -/
theorem Model.assemble_eq_pruned (filter : PackageFilter) (records : List ClassRecord)
    (sources : List SourceRecord) :
    (∀ name, filter.isIgnored name = true ↔ ∃ stem ∈ filter.ignore, stem.toList <+: name.toList)
      ∧ Model.assemble filter records sources
        = Model.assemble filter.keepingAll (filter.pruneAll records) sources
      ∧ ∀ node ∈ (Model.assemble filter records sources).classes,
        (∀ stem ∈ filter.ignore, startsWith node.name stem = false)
          ∧ ∀ use ∈ node.uses, ∃ target,
            (Model.assemble filter records sources).class? use.1 = some target
              ∧ ∀ stem ∈ filter.ignore, startsWith target.name stem = false := by
  have hkept : ∀ node ∈ (Model.assemble filter records sources).classes,
      ∀ stem ∈ filter.ignore, startsWith node.name stem = false := by
    intro node hnode
    apply PackageFilter.isIgnored_eq_false_iff.mp
    exact Declarations.not_isIgnored_of_mem (Model.eq_nodeOf_of_mem filter records sources hnode).2
  refine ⟨filter.isIgnored_iff, ?_, fun node hnode => ⟨hkept node hnode, ?_⟩⟩
  · symm
    apply Model.assemble_congr
    · exact Declarations.classNames_pruneAll filter records
    · rw [Declarations.classNames_pruneAll, Declarations.packageNames_pruneAll]
    · exact Declarations.packageAnnotations_pruneAll filter records
    · exact Model.nodeOf_pruneAll filter records sources
  · -- A use leads into the table of classes, and none of those is left out.
    intro use huse
    have hlt := (Model.assemble_wellFormed filter records sources).classUses_lt node hnode use huse
    exact ⟨_, Array.getElem?_eq_getElem hlt, hkept _ (Array.getElem_mem hlt)⟩

/-- A class of the platform is declared, and one is mentioned; in the pruned records neither is. -/
theorem Model.sample_eq_pruned :
    Model.assemble sampleFilter sampleRecords []
        = Model.assemble sampleFilter.keepingAll (sampleFilter.pruneAll sampleRecords) []
      ∧ (sampleFilter.pruneAll sampleRecords).map (fun record => (record.name, record.references))
        = [("app.Main", [("lib.core.Store", 2), ("lib.ui.View", 1)]),
          ("app.Main", [("other.Thing", 1)]), ("app.package-info", [])]
      ∧ ∀ node ∈ (Model.assemble sampleFilter sampleRecords []).classes,
        startsWith node.name "java." = false := by
  obtain ⟨-, heq, hkept⟩ := Model.assemble_eq_pruned sampleFilter sampleRecords []
  refine ⟨heq, by decide +kernel, ?_⟩
  intro node hnode
  exact (hkept node hnode).1 "java." (by decide)

end PackageAudit
