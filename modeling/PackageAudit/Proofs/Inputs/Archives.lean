/-
What an archive contributes, with the archives inside it.

An archive unfolds to a tree: its entries, and inside those that are archives again, their entries.
The tree need not be finite, since packed data can unpack to more than itself.  If it is, reading
comes to an end, and what it has gathered then is what the entries of the tree contribute one by
one, in the order in which the tree is written down: an archive first, then what is inside it,
then what stands behind it.  Nothing that is wrong with one entry changes what another one
contributes.
-/
import Mathlib.Data.List.Basic
import PackageAudit.Inputs.Build
import PackageAudit.Proofs.Traversal

namespace PackageAudit

variable (format : ArchiveFormat)

/-! ### Entries by themselves -/

namespace ArchiveEntry

/-- The entries inside an entry: none unless it is an archive that can be read and opened. -/
def inner : ArchiveEntry → List ArchiveEntry
  | .file name data =>
    if EntryKind.ofName? name = some .archive then (format.entries data).toOption.getD [] else []
  | _ => []

/-- The class of an entry: none unless it is a class file that can be read and decoded. -/
def record? : ArchiveEntry → Option ClassRecord
  | .file name data =>
    if EntryKind.ofName? name = some .classFile then (ClassRecord.ofBytes data).toOption else none
  | _ => none

/-- Why an entry is left out, if it is one that would be of use. -/
def fault? : ArchiveEntry → Option String
  | .inaccessible reason => some reason
  | .folder => none
  | .unreadable name reason => (EntryKind.ofName? name).map fun _ => reason
  | .file name data =>
    match EntryKind.ofName? name with
    | none => none
    | some .classFile =>
      match ClassRecord.ofBytes data with
      | .error cause => some cause.message
      | .ok _ => none
    | some .archive =>
      match format.entries data with
      | .error reason => some reason
      | .ok _ => none

/-- The name that an entry is reported by: its position, if it cannot be accessed. -/
def label (position : Nat) : ArchiveEntry → String
  | .inaccessible _ => "#" ++ Text.decimal position
  | .folder => ""
  | .unreadable name _ | .file name _ => name

end ArchiveEntry

/-- An entry with the names of the archives around it, from the outermost one inwards, and its
position in the innermost. -/
structure PlacedEntry where
  archives : List String
  position : Nat
  entry : ArchiveEntry

namespace PlacedEntry

/-- Where an entry lies, from the location of the outermost archive on. -/
def location (root : String) (placed : PlacedEntry) : String :=
  (placed.archives ++ [placed.entry.label placed.position]).foldl entryLocation root

/-- What is reported of an entry that is left out. -/
def skipped? (root : String) (placed : PlacedEntry) : Option SkippedEntry :=
  (placed.entry.fault? format).map fun reason => ⟨placed.location root, reason⟩

end PlacedEntry

namespace Contents

/-- What entries contribute one by one. -/
def ofPlaced (root : String) (placed : List PlacedEntry) : Contents where
  classes := placed.filterMap (·.entry.record?)
  skipped := placed.filterMap (·.skipped? format root)

theorem ofPlaced_append (root : String) (placed more : List PlacedEntry) :
    ofPlaced format root (placed ++ more)
      = ofPlaced format root placed ++ ofPlaced format root more := by
  unfold ofPlaced
  rw [List.filterMap_append, List.filterMap_append]
  rfl

theorem ofPlaced_cons (root : String) (placed : PlacedEntry) (more : List PlacedEntry) :
    ofPlaced format root (placed :: more)
      = ofPlaced format root [placed] ++ ofPlaced format root more :=
  ofPlaced_append format root [placed] more

theorem ofPlaced_singleton (root : String) (placed : PlacedEntry) :
    ofPlaced format root [placed] = {
      classes := placed.entry.record?.toList
      skipped := ((placed.entry.fault? format).map fun reason =>
        ⟨placed.location root, reason⟩).toList } := by
  unfold ofPlaced PlacedEntry.skipped?
  rw [List.filterMap_eq_flatMap_toList, List.filterMap_eq_flatMap_toList, List.flatMap_singleton,
    List.flatMap_singleton]

theorem concat_cons (first : Contents) (parts : List Contents) :
    concat (first :: parts) = first ++ concat parts := rfl

end Contents

/-! ### Reading a tree -/

/-- A finite tree of archives: entries one after the other, each with the tree of the entries
inside it. -/
inductive ArchiveTree : List ArchiveEntry → Type where
  | nil : ArchiveTree []
  | cons (entry : ArchiveEntry) {rest : List ArchiveEntry}
      (inside : ArchiveTree (entry.inner format)) (others : ArchiveTree rest) :
      ArchiveTree (entry :: rest)

variable {format}

namespace ArchiveTree

/-- The entries of a tree, each one before those inside it.  `archives` are the names of the
archives around the tree, and `position` is that of its first entry. -/
def listing (archives : List String) (position : Nat) {entries : List ArchiveEntry} :
    ArchiveTree format entries → List PlacedEntry
  | .nil => []
  | .cons entry inside others =>
    ⟨archives, position, entry⟩
      :: (inside.listing (archives ++ [entry.label position]) 0
        ++ others.listing archives (position + 1))

theorem listing_eq_nil {entries : List ArchiveEntry} (tree : ArchiveTree format entries)
    (h : entries = []) (archives : List String) (position : Nat) :
    tree.listing archives position = [] := by
  cases tree with
  | nil => rfl
  | cons entry inside others => cases h

/-- A tree that starts with an entry inside which known entries are. -/
def node (entry : ArchiveEntry) (inner : List ArchiveEntry) {rest : List ArchiveEntry}
    (h : entry.inner format = inner) (inside : ArchiveTree format inner)
    (others : ArchiveTree format rest) : ArchiveTree format (entry :: rest) :=
  .cons entry (h ▸ inside) others

end ArchiveTree

section Reading

variable (root : String) (archives : List String) (position : Nat) (entry : ArchiveEntry)

/-- An entry contributes by itself what can be told from it alone, or it is an archive, whose
entries are to be read at its location. -/
theorem ArchiveFormat.reading_cases :
    (format.reading (archives.foldl entryLocation root) (entry, position)
        = .done (.ofPlaced format root [⟨archives, position, entry⟩]) ∧ entry.inner format = [])
      ∨ (format.reading (archives.foldl entryLocation root) (entry, position)
          = .archive ((archives ++ [entry.label position]).foldl entryLocation root)
            (entry.inner format)
        ∧ Contents.ofPlaced format root [⟨archives, position, entry⟩] = {}) := by
  have hlocation : ∀ name, (archives ++ [name]).foldl entryLocation root
      = entryLocation (archives.foldl entryLocation root) name := by
    intro name
    rw [List.foldl_append]
    rfl
  rw [Contents.ofPlaced_singleton, PlacedEntry.location, hlocation]
  cases entry with
  | inaccessible reason => exact Or.inl ⟨rfl, rfl⟩
  | folder => exact Or.inl ⟨rfl, rfl⟩
  | unreadable name reason =>
      simp only [reading, ArchiveEntry.fault?, ArchiveEntry.label]
      cases EntryKind.ofName? name <;> exact Or.inl ⟨rfl, rfl⟩
  | file name data =>
      simp only [reading, ArchiveEntry.inner, ArchiveEntry.record?, ArchiveEntry.fault?,
        ArchiveEntry.label]
      cases EntryKind.ofName? name with
      | none => exact Or.inl ⟨rfl, rfl⟩
      | some kind =>
          cases kind with
          | classFile =>
              simp only [classContents]
              cases ClassRecord.ofBytes data with
              | ok record => simp [Except.toOption, Contents.ofClass]
              | error cause => simp [Except.toOption, Contents.ofSkipped]
          | archive =>
              cases format.entries data with
              | ok entries => simp [Except.toOption]
              | error reason => simp [Except.toOption, Contents.ofSkipped]

end Reading

/-- What reading makes of one entry. -/
def ArchiveFormat.readEntry (format : ArchiveFormat) (location : String)
    (placed : ArchiveEntry × Nat) : Option Contents :=
  (format.reading location placed).contents format

theorem ArchiveFormat.contents_eq (location : String) (entries : List ArchiveEntry) :
    format.contents location entries
      = (entries.zipIdx.mapM (format.readEntry location)).map Contents.concat := by
  rw [ArchiveFormat.contents, EntryReading.contents, Option.map_eq_bind]
  rfl

/-- The entries that are left to read. -/
def EntryReading.entries : EntryReading → List ArchiveEntry
  | .done _ => []
  | .archive _ entries => entries

theorem ArchiveFormat.entries_reading (location : String) (placed : ArchiveEntry × Nat) :
    (format.reading location placed).entries = placed.1.inner format := by
  rcases format.reading_cases location [] placed.2 placed.1 with ⟨hread, hinner⟩ | ⟨hread, -⟩
  · rw [hinner, show format.reading location placed = _ from hread]
    rfl
  · rw [show format.reading location placed = _ from hread]
    rfl

namespace ArchiveTree

variable {entries : List ArchiveEntry} (tree : ArchiveTree format entries)

/-- Reading the entries of a tree comes to an end, with what they contribute one by one. -/
theorem exists_mapM_readEntry (root : String) (archives : List String) (position : Nat) :
    ∃ parts, (entries.zipIdx position).mapM (format.readEntry (archives.foldl entryLocation root))
        = some parts
      ∧ Contents.concat parts = .ofPlaced format root (tree.listing archives position) := by
  induction tree generalizing archives position with
  | nil => exact ⟨[], rfl, rfl⟩
  | cons entry inside others ihInside ihOthers =>
      have hentry : format.readEntry (archives.foldl entryLocation root) (entry, position)
          = some (.ofPlaced format root (⟨archives, position, entry⟩
            :: inside.listing (archives ++ [entry.label position]) 0)) := by
        rw [ArchiveFormat.readEntry]
        rcases format.reading_cases root archives position entry with
          ⟨hread, hinner⟩ | ⟨hread, hempty⟩
        · rw [hread, inside.listing_eq_nil hinner, EntryReading.contents]
        · obtain ⟨parts, hparts, hconcat⟩ := ihInside (archives ++ [entry.label position]) 0
          rw [hread, Contents.ofPlaced_cons, hempty, ← hconcat]
          show format.contents _ _ = _
          rw [ArchiveFormat.contents_eq, hparts]
          rfl
      obtain ⟨parts, hparts, hconcat⟩ := ihOthers archives (position + 1)
      refine ⟨.ofPlaced format root (⟨archives, position, entry⟩
        :: inside.listing (archives ++ [entry.label position]) 0) :: parts, ?_, ?_⟩
      · rw [List.zipIdx_cons, List.mapM_cons, hentry, hparts]
        rfl
      · rw [Contents.concat_cons, hconcat, ← Contents.ofPlaced_append]
        rfl

theorem contents_eq_ofPlaced (location : String) :
    format.contents location entries
      = some (.ofPlaced format location (tree.listing [] 0)) := by
  obtain ⟨parts, hparts, hconcat⟩ := tree.exists_mapM_readEntry location [] 0
  rw [ArchiveFormat.contents_eq]
  exact (congrArg (Option.map Contents.concat) hparts).trans (congrArg some hconcat)

/-- A list of entries has a finite tree if what is inside each of them has. -/
theorem nonempty_of_forall {entries : List ArchiveEntry}
    (h : ∀ entry ∈ entries, Nonempty (ArchiveTree format (entry.inner format))) :
    Nonempty (ArchiveTree format entries) := by
  induction entries with
  | nil => exact ⟨.nil⟩
  | cons entry rest ih =>
      obtain ⟨hentry, hrest⟩ := List.forall_mem_cons.mp h
      obtain ⟨inside⟩ := hentry
      obtain ⟨others⟩ := ih hrest
      exact ⟨.cons entry inside others⟩

end ArchiveTree

/-- Reading comes to an end for finite trees, and for no others. -/
theorem exists_contents_iff (location : String) (entries : List ArchiveEntry) :
    (∃ contents, format.contents location entries = some contents)
      ↔ Nonempty (ArchiveTree format entries) := by
  refine ⟨?_, fun ⟨tree⟩ => ⟨_, tree.contents_eq_ofPlaced location⟩⟩
  rintro ⟨contents, hread⟩
  -- Whatever a reading gives came from readings inside it that gave something.
  refine EntryReading.contents.partial_correctness format
    (fun reading _ => Nonempty (ArchiveTree format reading.entries)) ?_
    (.archive location entries) contents hread
  intro inside ih reading contents hread
  cases reading with
  | done contents => exact ⟨.nil⟩
  | archive location entries =>
      obtain ⟨parts, hparts, -⟩ := Option.bind_eq_some_iff.mp hread
      refine ArchiveTree.nonempty_of_forall fun entry hentry => ?_
      rw [← List.zipIdx_map_fst 0 entries] at hentry
      obtain ⟨placed, hplaced, rfl⟩ := List.mem_map.mp hentry
      obtain ⟨part, -, hpart⟩ := exists_of_mem_of_mapM hparts hplaced
      rw [← ArchiveFormat.entries_reading location]
      exact ih _ _ hpart

/-! ### Accounts -/

namespace ArchiveEntry

/-- Whether an entry is a class file by its name. -/
def isClass : ArchiveEntry → Bool
  | .unreadable name _ | .file name _ => EntryKind.ofName? name = some .classFile
  | _ => false

/-- Whether an entry cannot be accessed. -/
def isInaccessible : ArchiveEntry → Bool
  | .inaccessible _ => true
  | _ => false

/-- Whether an entry is an archive by its name, but cannot be read or opened. -/
def isShut (format : ArchiveFormat) : ArchiveEntry → Bool
  | .unreadable name _ => EntryKind.ofName? name = some .archive
  | .file name data =>
    EntryKind.ofName? name = some .archive && (format.entries data).toOption.isNone
  | _ => false

/-- An entry gives one class or one report if it is a class file, inaccessible, or an archive that
stays shut, and neither of them otherwise. -/
theorem length_record?_add_fault? (format : ArchiveFormat) (entry : ArchiveEntry) :
    entry.record?.toList.length + (entry.fault? format).toList.length
      = entry.isClass.toNat + entry.isInaccessible.toNat + (entry.isShut format).toNat := by
  cases entry with
  | inaccessible reason => rfl
  | folder => rfl
  | unreadable name reason =>
      simp only [record?, fault?, isClass, isInaccessible, isShut]
      rcases EntryKind.ofName? name with _ | (_ | _) <;> rfl
  | file name data =>
      simp only [record?, fault?, isClass, isInaccessible, isShut]
      cases EntryKind.ofName? name with
      | none => rfl
      | some kind =>
          cases kind with
          | classFile => cases ClassRecord.ofBytes data <;> simp [Except.toOption]
          | archive => cases format.entries data <;> simp [Except.toOption]

end ArchiveEntry

theorem toNat_eq_ite (b : Bool) : b.toNat = if b = true then 1 else 0 := by
  cases b <;> rfl

theorem Contents.length_ofPlaced (root : String) (placed : List PlacedEntry) :
    (ofPlaced format root placed).classes.length + (ofPlaced format root placed).skipped.length
      = placed.countP (·.entry.isClass) + placed.countP (·.entry.isInaccessible)
        + placed.countP (·.entry.isShut format) := by
  induction placed with
  | nil => rfl
  | cons first rest ih =>
      have hfirst := first.entry.length_record?_add_fault? format
      have hclasses : (ofPlaced format root (first :: rest)).classes.length
          = first.entry.record?.toList.length + (ofPlaced format root rest).classes.length := by
        rw [ofPlaced_cons, ofPlaced_singleton]
        exact List.length_append
      have hskipped : (ofPlaced format root (first :: rest)).skipped.length
          = (first.entry.fault? format).toList.length
            + (ofPlaced format root rest).skipped.length := by
        rw [ofPlaced_cons, ofPlaced_singleton]
        refine List.length_append.trans (congrArg (· + _) ?_)
        cases first.entry.fault? format <;> rfl
      simp only [toNat_eq_ite] at hfirst
      rw [hclasses, hskipped, List.countP_cons, List.countP_cons, List.countP_cons]
      omega

/-- **Reading an archive accounts for every entry of its tree.**  Whatever the format, it comes to
an end, with the class of each class file that can be decoded, with a report of each entry of use
that cannot be read, decoded or opened, and with nothing else. -/
theorem archiveContents_exact (format : ArchiveFormat) (location : String)
    {entries : List ArchiveEntry} (tree : ArchiveTree format entries) :
    ∃ contents, format.contents location entries = some contents ∧
      contents.classes = (tree.listing [] 0).filterMap (·.entry.record?) ∧
      contents.sources = [] ∧
      contents.skipped = (tree.listing [] 0).filterMap (·.skipped? format location) ∧
      contents.classes.length + contents.skipped.length
        = (tree.listing [] 0).countP (·.entry.isClass)
          + (tree.listing [] 0).countP (·.entry.isInaccessible)
          + (tree.listing [] 0).countP (·.entry.isShut format) :=
  ⟨_, tree.contents_eq_ofPlaced location, rfl, rfl, rfl, Contents.length_ofPlaced _ _⟩

/-- A class without members. -/
def plainClass : List UInt8 :=
  [0xCA, 0xFE, 0xBA, 0xBE, 0, 0, 0, 52, 0, 3, 7, 0, 2, 1, 0, 1, 65, 0, 33, 0, 1, 0, 0, 0, 0, 0, 0,
    0, 0, 0, 0]

/-- A zip archive with a class file that is empty. -/
def innerArchive : List UInt8 :=
  [80, 75, 3, 4, 20, 0, 0, 0, 0, 0, 0, 0, 33, 0, 0, 0, 0, 0, 0, 0, 0, 0, 0, 0, 0, 0, 7, 0, 0, 0,
    66, 46, 99, 108, 97, 115, 115] ++
  [80, 75, 1, 2, 20, 0, 20, 0, 0, 0, 0, 0, 0, 0, 33, 0, 0, 0, 0, 0, 0, 0, 0, 0, 0, 0, 0, 0, 7, 0,
    0, 0, 0, 0, 0, 0, 0, 0, 0, 0, 128, 1, 0, 0, 0, 0, 66, 46, 99, 108, 97, 115, 115] ++
  [80, 75, 5, 6, 0, 0, 0, 0, 1, 0, 1, 0, 53, 0, 0, 0, 37, 0, 0, 0, 0, 0]

/-- The entries of an archive of which some are of use, some are not, and some are broken. -/
def mixedEntries : List ArchiveEntry :=
  [.inaccessible "no header", .folder, .file "app/Main.class" plainClass,
    .unreadable "app/Lost.class" "wrong checksum", .file "lib/inner.jar" innerArchive,
    .file "lib/broken.zip" [1, 2, 3], .unreadable "readme.txt" "wrong checksum"]

/-- The tree of those entries. -/
def mixedTree : ArchiveTree Zip.format mixedEntries :=
  .cons _ .nil <| .cons _ .nil <| .node _ [] (by decide +kernel) .nil <| .cons _ .nil <|
    .node _ [.file "B.class" []] (by decide +kernel) (.node _ [] (by decide +kernel) .nil .nil) <|
    .node _ [] (by decide +kernel) .nil <| .cons _ .nil .nil

theorem mixedEntries_contents :
    ∃ contents, Zip.format.contents "app.jar" mixedEntries = some contents
      ∧ contents.classes.map (·.name) = ["A"]
      ∧ contents.skipped = [
        ⟨"app.jar!/#0", "no header"⟩, ⟨"app.jar!/app/Lost.class", "wrong checksum"⟩,
        ⟨"app.jar!/lib/inner.jar!/B.class", "truncated class file: needed 4 bytes at offset 0"⟩,
        ⟨"app.jar!/lib/broken.zip", "invalid Zip archive: Invalid zip header"⟩]
      ∧ contents.classes.length + contents.skipped.length = 3 + 1 + 1 := by
  obtain ⟨contents, hread, hclasses, -, hskipped, hcount⟩ :=
    archiveContents_exact Zip.format "app.jar" mixedTree
  refine ⟨contents, hread, ?_, ?_, ?_⟩
  · rw [hclasses]
    decide +kernel
  · rw [hskipped]
    decide +kernel
  · rw [hcount]
    decide +kernel

end PackageAudit
