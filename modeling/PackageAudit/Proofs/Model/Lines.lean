/-
The lines of a package.

Each analyzed class may have a source, and a package counts the lines of the sources of its
classes.  Several classes often share one source, which is to be counted once.  What is
remembered while the classes are gone through is not the source, though, but the name of its
file: of the sources with one file name only that of the first class counts.

Within a package as the classes name it this is the same thing, because its classes find the
same source for the same file name.  It is not if several packages were put together.  Then
files of one name in different directories belong to one package, and all but one of them
are lost.  The exact statement is therefore that nothing is lost if and only if each source that is
passed over is empty.
-/
import Mathlib.Algebra.BigOperators.Group.List.Basic
import Mathlib.Data.List.Dedup
import PackageAudit.Proofs.Model.Assembly
import PackageAudit.Proofs.Source.Counts

namespace PackageAudit

namespace SourceRecord

/-- The lines of some sources together. -/
def lines (sources : List SourceRecord) : LineCounts := (sources.map (·.counts)).sum

variable {sources others : List SourceRecord}

theorem lines_cons (source : SourceRecord) (rest : List SourceRecord) :
    lines (source :: rest) = source.counts + lines rest :=
  List.sum_cons

theorem lines_perm (h : sources.Perm others) : lines sources = lines others :=
  (h.map _).sum_eq

theorem lines_append (sources others : List SourceRecord) :
    lines (sources ++ others) = lines sources + lines others := by
  unfold lines
  rw [List.map_append, List.sum_append]

theorem lines_eq_zero_iff : lines sources = 0 ↔ ∀ source ∈ sources, source.counts = 0 := by
  induction sources with
  | nil => simp [lines]
  | cons source rest ih => rw [lines_cons, LineCounts.add_eq_zero_iff, ih, List.forall_mem_cons]

/-- Different sources out of a list have no more lines than all of the list: what is left of the
list has the others. -/
theorem exists_lines_add (hnodup : sources.Nodup) (hsubset : sources ⊆ others) :
    ∃ rest, lines others = lines sources + lines rest := by
  obtain ⟨chosen, hperm, hsublist⟩ := List.subperm_of_subset hnodup hsubset
  obtain ⟨rest, hrest⟩ := hsublist.exists_perm_append
  refine ⟨rest, ?_⟩
  rw [lines_perm hrest, lines_append, lines_perm hperm]

/-- Some of the sources have as many lines as all of them if the others have none. -/
theorem lines_filter_eq_iff (p : SourceRecord → Bool) :
    lines (sources.filter p) = lines sources ↔
      ∀ source ∈ sources, p source = true ∨ source.counts = 0 := by
  have hsplit : lines sources = lines (sources.filter p) + lines (sources.filter (!p ·)) := by
    rw [← lines_append]
    exact (lines_perm (List.filter_append_perm p sources)).symm
  rw [hsplit, left_eq_add, lines_eq_zero_iff]
  simp only [List.mem_filter, Bool.not_eq_true', and_imp]
  refine forall₂_congr fun source _ => ?_
  cases p source <;> simp

/-! ### The first source of each file name -/

/-- The sources whose file name is not among those given and has not occurred before. -/
def firstsFrom (seen : List String) : List SourceRecord → List SourceRecord
  | [] => []
  | source :: rest =>
    if seen.contains source.fileName then firstsFrom seen rest
    else source :: firstsFrom (source.fileName :: seen) rest

/-- Whether a source is the first of its file name. -/
def isFirst (sources : List SourceRecord) (source : SourceRecord) : Bool :=
  sources.find? (·.fileName == source.fileName) == some source

theorem isFirst_iff {source : SourceRecord} : isFirst sources source = true ↔
    sources.find? (·.fileName == source.fileName) = some source :=
  beq_iff_eq

theorem mem_firstsFrom {seen : List String} {source : SourceRecord} :
    source ∈ firstsFrom seen sources ↔
      source.fileName ∉ seen ∧ isFirst sources source = true := by
  rw [isFirst_iff]
  induction sources generalizing seen with
  | nil => simp [firstsFrom]
  | cons next rest ih =>
      unfold firstsFrom
      by_cases hname : next.fileName = source.fileName
      · rw [List.find?_cons_of_pos (by simp [hname])]
        by_cases hseen : next.fileName ∈ seen
        · simp [hseen, ih, ← hname]
        · simp [hseen, ih, ← hname, eq_comm]
      · rw [List.find?_cons_of_neg (by simp [hname])]
        by_cases hseen : next.fileName ∈ seen
        · simp [hseen, ih]
        · have hne : source ≠ next := fun heq => hname (by rw [heq])
          simp [hseen, ih, hne, Ne.symm hname]

theorem nodup_firstsFrom (seen : List String) (sources : List SourceRecord) :
    (firstsFrom seen sources).Nodup := by
  induction sources generalizing seen with
  | nil => exact List.nodup_nil
  | cons next rest ih =>
      unfold firstsFrom
      split
      · exact ih seen
      · refine List.nodup_cons.mpr ⟨?_, ih _⟩
        intro hmem
        exact (mem_firstsFrom.mp hmem).1 List.mem_cons_self

/-- The first sources of their names are so many of the different ones. -/
theorem firstsFrom_perm (sources : List SourceRecord) :
    (firstsFrom [] sources).Perm (sources.dedup.filter (isFirst sources)) := by
  apply (List.perm_ext_iff_of_nodup (nodup_firstsFrom [] sources)
    ((List.nodup_dedup sources).filter _)).mpr
  intro source
  rw [mem_firstsFrom, List.mem_filter, List.mem_dedup]
  simp only [List.not_mem_nil, not_false_eq_true, true_and]
  refine ⟨?_, And.right⟩
  intro hfirst
  exact ⟨List.mem_of_find?_eq_some (isFirst_iff.mp hfirst), hfirst⟩

end SourceRecord

/-! ### The sources of classes -/

/-- The source that belongs to a class.  If the list has a source twice, the first is taken for every
class, so that different sources of classes are different entries of the list. -/
def ClassNode.attached? (sources : List SourceRecord) (node : ClassNode) : Option SourceRecord :=
  node.sourceFile.bind fun fileName =>
    SourceRecord.forClass? sources (packageName node.name) fileName

section Attached

variable {sources : List SourceRecord} {node : ClassNode} {source : SourceRecord}

theorem SourceRecord.fileName_of_forClass? {package fileName : String}
    (h : SourceRecord.forClass? sources package fileName = some source) :
    source.fileName = fileName := by
  have hmem : source ∈ sources.filter (·.fileName == fileName) := by
    rcases Option.or_eq_some_iff.mp h with hfound | ⟨-, hhead⟩
    · exact List.mem_of_find?_eq_some hfound
    · exact List.mem_of_head? hhead
  exact beq_iff_eq.mp (List.mem_filter.mp hmem).2

theorem ClassNode.mem_of_attached? (h : node.attached? sources = some source) :
    source ∈ sources := by
  obtain ⟨fileName, -, hfor⟩ := Option.bind_eq_some_iff.mp h
  rcases Option.or_eq_some_iff.mp hfor with hfound | ⟨-, hhead⟩
  · exact List.mem_of_mem_filter (List.mem_of_find?_eq_some hfound)
  · exact List.mem_of_mem_filter (List.mem_of_head? hhead)

theorem ClassNode.sourceFile_of_attached? (h : node.attached? sources = some source) :
    node.sourceFile = some source.fileName := by
  obtain ⟨fileName, hfile, hsource⟩ := Option.bind_eq_some_iff.mp h
  rw [hfile, SourceRecord.fileName_of_forClass? hsource]

/-- The sources of some classes, as often as they belong to one of them. -/
def SourceRecord.ofClasses (sources : List SourceRecord) (nodes : List ClassNode) :
    List SourceRecord :=
  nodes.filterMap (·.attached? sources)

/-- Whether classes have the line counts of the sources that belong to them. -/
def HaveSources (sources : List SourceRecord) (nodes : List ClassNode) : Prop :=
  ∀ node ∈ nodes, node.source = (node.attached? sources).map (·.counts)

theorem addLines_of_none (h : node.source = none) (counted : List String × Option LineCounts) :
    addLines counted node = counted := by
  unfold addLines
  rw [h]
  cases node.sourceFile <;> rfl

/-- Going through the classes adds up the first source of each file name. -/
theorem foldl_addLines {nodes : List ClassNode} (h : HaveSources sources nodes)
    (seen : List String) (sum : Option LineCounts) :
    (nodes.foldl addLines (seen, sum)).2
      = (SourceRecord.firstsFrom seen (SourceRecord.ofClasses sources nodes)).foldl
          (fun sum source => some (sum.getD {} + source.counts)) sum := by
  unfold SourceRecord.ofClasses
  induction nodes generalizing seen sum with
  | nil => rfl
  | cons node rest ih =>
      obtain ⟨hsource, hrest⟩ := List.forall_mem_cons.mp h
      rw [List.foldl_cons]
      cases hattached : node.attached? sources with
      | none =>
          rw [hattached, Option.map_none] at hsource
          rw [addLines_of_none hsource, ih hrest, List.filterMap_cons_none hattached]
      | some source =>
          rw [hattached, Option.map_some] at hsource
          rw [List.filterMap_cons_some hattached]
          unfold addLines SourceRecord.firstsFrom
          rw [ClassNode.sourceFile_of_attached? hattached, hsource]
          by_cases hseen : seen.contains source.fileName = true
          · simp only [hseen, if_true]
            exact ih hrest seen sum
          · simp only [hseen, Bool.false_eq_true, if_false]
            exact ih hrest _ _

theorem foldl_counts (sources : List SourceRecord) (sum : LineCounts) :
    sources.foldl (fun sum source => some (sum.getD {} + source.counts)) (some sum)
      = some (sum + SourceRecord.lines sources) := by
  induction sources generalizing sum with
  | nil => exact congrArg some (add_zero sum).symm
  | cons source rest ih =>
      rw [List.foldl_cons, Option.getD_some, ih, SourceRecord.lines_cons, add_assoc]

/-- Without a source there are no lines. -/
theorem PackageSizes.lines_ofMembers_nil {nodes : List ClassNode} (h : HaveSources sources nodes)
    (hnil : SourceRecord.ofClasses sources nodes = []) :
    (PackageSizes.ofMembers nodes).lines = none := by
  show (nodes.foldl addLines ([], none)).2 = _
  rw [foldl_addLines h, hnil]
  rfl

/-- Else the lines are those of the first sources of each file name. -/
theorem PackageSizes.lines_ofMembers {nodes : List ClassNode} (h : HaveSources sources nodes)
    (hne : SourceRecord.ofClasses sources nodes ≠ []) :
    (PackageSizes.ofMembers nodes).lines
      = some (SourceRecord.lines ((SourceRecord.ofClasses sources nodes).dedup.filter
          (SourceRecord.isFirst (SourceRecord.ofClasses sources nodes)))) := by
  show (nodes.foldl addLines ([], none)).2 = _
  rw [foldl_addLines h, ← SourceRecord.lines_perm (SourceRecord.firstsFrom_perm _)]
  obtain ⟨source, rest, hcons⟩ := List.exists_cons_of_ne_nil hne
  rw [hcons]
  show List.foldl _ (some (0 + source.counts)) _ = some (SourceRecord.lines (source :: _))
  rw [foldl_counts, zero_add, SourceRecord.lines_cons]

/-- Classes of one package find the same source for the same file name. -/
theorem SourceRecord.isFirst_of_packageName {nodes : List ClassNode}
    (h : ∀ node ∈ nodes, ∀ other ∈ nodes, packageName node.name = packageName other.name)
    (hsource : source ∈ SourceRecord.ofClasses sources nodes) :
    SourceRecord.isFirst (SourceRecord.ofClasses sources nodes) source = true := by
  rw [SourceRecord.isFirst_iff]
  cases hfirst : (SourceRecord.ofClasses sources nodes).find? (·.fileName == source.fileName) with
  | none =>
      have hnone := List.find?_eq_none.mp hfirst source hsource
      simp at hnone
  | some first =>
      have hname : first.fileName = source.fileName := by
        simpa using List.find?_some hfirst
      obtain ⟨node, hnode, hattached⟩ := List.mem_filterMap.mp hsource
      obtain ⟨other, hother, hattached'⟩ :=
        List.mem_filterMap.mp (List.mem_of_find?_eq_some hfirst)
      -- Both were looked for in the same package under the same file name.
      have hsame : other.attached? sources = node.attached? sources := by
        unfold ClassNode.attached?
        rw [ClassNode.sourceFile_of_attached? hattached,
          ClassNode.sourceFile_of_attached? hattached', hname, h other hother node hnode]
      rw [hattached, hattached'] at hsame
      exact hsame

theorem SourceRecord.ofClasses_eq_nil_iff {nodes : List ClassNode}
    (h : HaveSources sources nodes) :
    SourceRecord.ofClasses sources nodes = [] ↔ ∀ node ∈ nodes, node.source = none := by
  unfold SourceRecord.ofClasses
  rw [List.filterMap_eq_nil_iff]
  refine forall₂_congr fun node hnode => ?_
  rw [h node hnode, Option.map_eq_none_iff]

end Attached

/-! ### The lines of a package -/

section Assemble

variable (filter : PackageFilter) (records : List ClassRecord) (sources : List SourceRecord)

theorem Model.haveSources_owned (position : Nat) :
    HaveSources sources ((Model.assemble filter records sources).owned position) := by
  intro node hnode
  have hmem := Array.mem_toList_iff.mp (List.mem_of_mem_filter hnode)
  obtain ⟨name, -, rfl⟩ := Model.exists_name_of_mem_classes filter records sources hmem
  unfold Declarations.node
  cases Ascending.find? name (Declarations.ofRecords filter records).records with
  | none => rfl
  | some record =>
      show record.sourceFile.bind _ = (record.sourceFile.bind _).map _
      rw [Option.map_bind]
      rfl

/-- What the lines of a package are, given the sources and its classes. -/
structure PackageSizes.LinesAreOf (sizes : PackageSizes) (sources : List SourceRecord)
    (nodes : List ClassNode) : Prop where
  have_sources : HaveSources sources nodes
  none_iff : sizes.lines = none ↔ ∀ node ∈ nodes, node.source = none
  /-- Of the different sources of the classes the first of each file name counts. -/
  counted : (∃ node ∈ nodes, node.source ≠ none) → sizes.lines = some (SourceRecord.lines
    ((SourceRecord.ofClasses sources nodes).dedup.filter
      (SourceRecord.isFirst (SourceRecord.ofClasses sources nodes))))
  /-- These are all of them, unless a source is passed over that is not empty. -/
  exact_iff : (∃ node ∈ nodes, node.source ≠ none) →
    (sizes.lines = some (SourceRecord.lines (SourceRecord.ofClasses sources nodes).dedup) ↔
      ∀ source ∈ SourceRecord.ofClasses sources nodes,
        SourceRecord.isFirst (SourceRecord.ofClasses sources nodes) source = true
          ∨ source.counts = 0)
  /-- None is passed over if the names of the classes are in one package. -/
  exact_of_packageName : (∃ node ∈ nodes, node.source ≠ none) →
    (∀ node ∈ nodes, ∀ other ∈ nodes, packageName node.name = packageName other.name) →
      sizes.lines = some (SourceRecord.lines (SourceRecord.ofClasses sources nodes).dedup)

theorem PackageSizes.linesAreOf_ofMembers {sources : List SourceRecord} {nodes : List ClassNode}
    (h : HaveSources sources nodes) : (PackageSizes.ofMembers nodes).LinesAreOf sources nodes := by
  have hne : (∃ node ∈ nodes, node.source ≠ none) → SourceRecord.ofClasses sources nodes ≠ [] := by
    rintro ⟨node, hnode, hsource⟩ hnil
    exact hsource ((SourceRecord.ofClasses_eq_nil_iff h).mp hnil node hnode)
  have hexact : (∃ node ∈ nodes, node.source ≠ none) →
      ((ofMembers nodes).lines
          = some (SourceRecord.lines (SourceRecord.ofClasses sources nodes).dedup) ↔
        ∀ source ∈ SourceRecord.ofClasses sources nodes,
          SourceRecord.isFirst (SourceRecord.ofClasses sources nodes) source = true
            ∨ source.counts = 0) := by
    intro hsome
    rw [lines_ofMembers h (hne hsome), Option.some.injEq, SourceRecord.lines_filter_eq_iff]
    simp only [List.mem_dedup]
  refine ⟨h, ?_, fun hsome => lines_ofMembers h (hne hsome), hexact, ?_⟩
  · rw [← SourceRecord.ofClasses_eq_nil_iff h]
    refine ⟨?_, lines_ofMembers_nil h⟩
    intro hlines
    by_contra hnil
    rw [lines_ofMembers h hnil] at hlines
    exact Option.some_ne_none _ hlines
  · intro hsome hone
    apply (hexact hsome).mpr
    intro source hsource
    exact Or.inl (SourceRecord.isFirst_of_packageName hone hsource)

/-- **A package counts each source of its classes once if and only if no source is passed over that has
lines.**  A source is passed over if it is not the first of its file name. -/
theorem Model.lines_exact_iff {i : Nat} {package : Package}
    (h : (Model.assemble filter records sources).packages[i]? = some package) :
    package.sizes.LinesAreOf sources ((Model.assemble filter records sources).owned i) := by
  rw [Model.sizes_eq_ofMembers filter records sources h]
  exact PackageSizes.linesAreOf_ofMembers (Model.haveSources_owned filter records sources i)

/-- The sum for a package is part of the sum for all sources.  So numbers that are great enough for
the lines of all sources are so wherever lines are added up. -/
theorem Model.exists_lines_add {i : Nat} {package : Package} {counts : LineCounts}
    (h : (Model.assemble filter records sources).packages[i]? = some package)
    (hlines : package.sizes.lines = some counts) :
    ∃ rest, SourceRecord.lines sources = counts + SourceRecord.lines rest := by
  have hsources := Model.haveSources_owned filter records sources i
  rw [Model.sizes_eq_ofMembers filter records sources h] at hlines
  have hne : SourceRecord.ofClasses sources ((Model.assemble filter records sources).owned i)
      ≠ [] := by
    intro hnil
    rw [PackageSizes.lines_ofMembers_nil hsources hnil] at hlines
    cases hlines
  rw [PackageSizes.lines_ofMembers hsources hne] at hlines
  obtain rfl := Option.some.inj hlines
  refine SourceRecord.exists_lines_add ((List.nodup_dedup _).filter _) fun source hsource => ?_
  have hmem := List.mem_dedup.mp (List.mem_of_mem_filter hsource)
  obtain ⟨node, -, hattached⟩ := List.mem_filterMap.mp hmem
  exact ClassNode.mem_of_attached? hattached

end Assemble

/-- Two classes of a library, each with a source of the same file name. -/
def Model.twinRecords : List ClassRecord :=
  [{ name := "lib.core.Util", sourceFile := some "Util.java" },
    { name := "lib.ui.Util", sourceFile := some "Util.java" }]

@[inherit_doc Model.twinRecords]
def Model.twinSources : List SourceRecord :=
  [{ directory := "src/lib/core", fileName := "Util.java", counts := ⟨5, 1, 2, 8⟩ },
    { directory := "src/lib/ui", fileName := "Util.java", counts := ⟨7, 0, 1, 8⟩ }]

/-- The two are put into one package, which counts the lines of the first source only. -/
theorem Model.twins_lose_lines :
    ∃ package, (Model.assemble sampleFilter twinRecords twinSources).packages[0]? = some package
      ∧ package.sizes.LinesAreOf twinSources
          ((Model.assemble sampleFilter twinRecords twinSources).owned 0)
      ∧ SourceRecord.ofClasses twinSources
          ((Model.assemble sampleFilter twinRecords twinSources).owned 0) = twinSources
      ∧ package.sizes.lines = some ⟨5, 1, 2, 8⟩
      ∧ SourceRecord.lines twinSources.dedup = ⟨12, 1, 3, 16⟩ := by
  have hlines : ((Model.assemble sampleFilter twinRecords twinSources).packages[0]?).bind
      (·.sizes.lines) = some ⟨5, 1, 2, 8⟩ := by
    decide +kernel
  obtain ⟨package, hget, hlines⟩ := Option.bind_eq_some_iff.mp hlines
  exact ⟨package, hget, Model.lines_exact_iff _ _ _ hget, by decide +kernel, hlines,
    by decide +kernel⟩

end PackageAudit
