/-
Packing a directory into an archive.

A directory and an archive that holds the same files under the same names should give the same
classes.  Each file is looked at by itself in both, and the way to it does not matter, so that the
question is one of names: the two lists of classes differ by the files whose names are read in
two ways, and by nothing else.  A name that only comes near the descriptor of a module costs a
class when it is packed, and a name that is a bare extension brings one in.

Nothing is asked of the format of archives, nor of the order in which the files of the directory
are come upon.
-/
import Mathlib.Data.List.Forall2
import Mathlib.Data.List.Perm.Basic
import PackageAudit.Proofs.Inputs.Archives
import PackageAudit.Proofs.Inputs.Kinds

namespace PackageAudit

/-! ### Files below a directory -/

namespace Path

theorem EndsIn.prepend {text name front : List Char} (h : EndsIn text name)
    (hfront : front = [] ∨ front.getLast? = some '/') : EndsIn (front ++ text) name := by
  obtain ⟨folder, rfl, hfolder⟩ := h
  refine ⟨front ++ folder, (List.append_assoc ..).symm, ?_⟩
  rcases hfolder with rfl | hlast
  · rwa [List.append_nil]
  · refine Or.inr ?_
    rw [List.getLast?_append, hlast]
    rfl

theorem LeadsTo.join {path : String} {name : List Char} (h : LeadsTo path name)
    (directory : String) : LeadsTo (join directory path) name := by
  refine ⟨?_, h.no_slash, h.proper⟩
  unfold Path.join
  split
  · exact h.ends
  · split
    · next hfront =>
        rw [String.toList_append]
        refine h.ends.prepend ?_
        simpa using hfront
    · rw [String.toList_append, String.toList_append]
      exact h.ends.prepend (Or.inr List.getLast?_concat)

end Path

namespace FileTree

mutual

/-- Whether a tree holds nothing but names that a file can have. -/
def IsNamed : FileTree → Prop
  | .file _ => True
  | .directory entries => AreNamed entries

@[inherit_doc IsNamed]
def AreNamed : List (String × FileTree) → Prop
  | [] => True
  | (name, tree) :: rest => Path.LeadsTo name name.toList ∧ tree.IsNamed ∧ AreNamed rest

end

/-- Two files have the same name and the same content, wherever they lie. -/
structure SameFile (file other : String × List UInt8) : Prop where
  data : file.2 = other.2
  name : ∃ name, Path.LeadsTo file.1 name ∧ Path.LeadsTo other.1 name

mutual

/-- The files of a tree are the same ones wherever it lies. -/
theorem forall₂_filesBelow {path other : String} {name : List Char}
    (hpath : Path.LeadsTo path name) (hother : Path.LeadsTo other name) :
    (tree : FileTree) → tree.IsNamed →
      List.Forall₂ SameFile (filesBelow path tree) (filesBelow other tree)
  | .file _, _ => .cons ⟨rfl, name, hpath, hother⟩ .nil
  | .directory entries, hnamed => forall₂_filesOfEntries path other entries hnamed

@[inherit_doc forall₂_filesBelow]
theorem forall₂_filesOfEntries (path other : String) :
    (entries : List (String × FileTree)) → AreNamed entries →
      List.Forall₂ SameFile (filesOfEntries path entries) (filesOfEntries other entries)
  | [], _ => .nil
  | (_, tree) :: rest, ⟨hname, htree, hrest⟩ =>
    List.rel_append (forall₂_filesBelow (hname.join path) (hname.join other) tree htree)
      (forall₂_filesOfEntries path other rest hrest)

end

end FileTree

/-! ### The classes of a file -/

section Classes

variable (format : ArchiveFormat)

/-- What a file of a directory would be read as in an archive. -/
def InputKind.entryKind? : InputKind → Option EntryKind
  | .classFile => some .classFile
  | .archive => some .archive
  | .source _ => none

/-- The classes of a file of a given kind: none if it is broken. -/
def EntryKind.classes (data : List UInt8) : EntryKind → List ClassRecord
  | .classFile => (ClassRecord.ofBytes data).toOption.toList
  | .archive =>
    ((format.contents "" ((format.entries data).toOption.getD [])).getD {}).classes

/-- The classes of an archive do not depend on where it lies. -/
theorem ArchiveFormat.classes_contents (location other : String) (entries : List ArchiveEntry) :
    ((format.contents location entries).getD {}).classes
      = ((format.contents other entries).getD {}).classes := by
  by_cases htree : Nonempty (ArchiveTree format entries)
  · obtain ⟨tree⟩ := htree
    rw [tree.contents_eq_ofPlaced, tree.contents_eq_ofPlaced]
    rfl
  · have hnone : ∀ place, format.contents place entries = none := fun place =>
      Option.eq_none_iff_forall_ne_some.mpr fun contents hread =>
        htree ((exists_contents_iff place entries).mp ⟨contents, hread⟩)
    rw [hnone, hnone]

/-- The classes of a file of a directory. -/
def directoryClasses (languages : List Language) (file : String × List UInt8) : List ClassRecord :=
  ((InputKind.ofPath? languages file.1).bind InputKind.entryKind?).toList.flatMap
    (EntryKind.classes format file.2)

/-- The classes of a file of an archive. -/
def entryClasses (file : String × List UInt8) : List ClassRecord :=
  (EntryKind.ofName? file.1).toList.flatMap (EntryKind.classes format file.2)

end Classes

/-! ### Reading a directory -/

namespace InputFile

/-- A file that was found in a directory, if it is of use. -/
def found? (languages : List Language) (file : String × List UInt8) : Option InputFile :=
  (InputKind.ofPath? languages file.1).map fun kind => ⟨file.1, kind, false, file.2⟩

theorem discover_directory {files : Files} {root : String} {entries : List (String × FileTree)}
    {found : List (String × List UInt8)} (h : files.get root = .ok (.directory entries))
    (hwalk : files.walk root = .ok found) (languages : List Language) :
    discover files languages root = .ok (found.filterMap (found? languages)) := by
  rw [discover, h]
  simp only [hwalk]
  rfl

variable {format : ArchiveFormat} {languages : List Language}

/-- Reading a file that was found gives its classes.  Only an archive that cannot be opened would
end the reading. -/
theorem exists_read_of_found {file : String × List UInt8} {input : InputFile}
    (hfound : found? languages file = some input)
    (hopens : InputKind.ofPath? languages file.1 = some .archive →
      ∃ inner, format.entries file.2 = .ok inner) :
    ∃ part, input.read format = .ok part
      ∧ part.classes = directoryClasses format languages file := by
  obtain ⟨kind, hkind, rfl⟩ := Option.map_eq_some_iff.mp hfound
  rw [directoryClasses, hkind]
  cases kind with
  | classFile =>
      simp only [read, readClass, InputKind.entryKind?, EntryKind.classes, Option.bind_some,
        Option.toList_some, List.flatMap_singleton]
      cases ClassRecord.ofBytes file.2 with
      | ok record => exact ⟨_, rfl, rfl⟩
      | error cause => exact ⟨_, rfl, rfl⟩
  | archive =>
      obtain ⟨inner, hinner⟩ := hopens hkind
      refine ⟨(format.contents file.1 inner).getD {}, ?_, ?_⟩
      · simp only [read, readArchive, hinner]
      · simp only [InputKind.entryKind?, EntryKind.classes, hinner, Except.toOption,
          Option.bind_some, Option.toList_some, List.flatMap_singleton, Option.getD_some]
        exact format.classes_contents _ _ _
  | source language => exact ⟨_, rfl, rfl⟩

theorem exists_mapM_read {files : List (String × List UInt8)}
    (hopens : ∀ file ∈ files, InputKind.ofPath? languages file.1 = some .archive →
      ∃ inner, format.entries file.2 = .ok inner) :
    ∃ parts, (files.filterMap (found? languages)).mapM (read format) = .ok parts
      ∧ (Contents.concat parts).classes = files.flatMap (directoryClasses format languages) := by
  induction files with
  | nil => exact ⟨[], rfl, rfl⟩
  | cons file rest ih =>
      obtain ⟨hfile, hrest⟩ := List.forall_mem_cons.mp hopens
      obtain ⟨parts, hparts, hclasses⟩ := ih hrest
      cases hfound : found? languages file with
      | none =>
          have hnothing : directoryClasses format languages file = [] := by
            rw [directoryClasses, Option.map_eq_none_iff.mp hfound]
            rfl
          refine ⟨parts, ?_, ?_⟩
          · rw [List.filterMap_cons_none hfound, hparts]
          · rw [hclasses, List.flatMap_cons, hnothing, List.nil_append]
      | some input =>
          obtain ⟨part, hread, hpart⟩ := exists_read_of_found hfound hfile
          refine ⟨part :: parts, ?_, ?_⟩
          · rw [List.filterMap_cons_some hfound, mapM_eq_ok_iff, List.map_cons, hread,
              mapM_eq_ok_iff.mp hparts]
            rfl
          · rw [Contents.concat_cons, List.flatMap_cons, ← hpart, ← hclasses]
            rfl

end InputFile

/-! ### Reading an archive -/

namespace ArchiveEntry

/-- The file that an entry holds, if it can be read. -/
def held? : ArchiveEntry → Option (String × List UInt8)
  | .file name data => some (name, data)
  | _ => none

/-- The classes of an entry, with those inside it. -/
def classes (format : ArchiveFormat) (entry : ArchiveEntry) : List ClassRecord :=
  entry.record?.toList ++ ((format.contents "" (entry.inner format)).getD {}).classes

variable {format : ArchiveFormat}

theorem classes_of_inner_eq_nil {entry : ArchiveEntry} (h : entry.inner format = []) :
    entry.classes format = entry.record?.toList := by
  rw [classes, h, ArchiveTree.nil.contents_eq_ofPlaced]
  exact List.append_nil _

theorem classes_file (name : String) (data : List UInt8) :
    (ArchiveEntry.file name data).classes format = entryClasses format (name, data) := by
  cases hkind : EntryKind.ofName? name with
  | none =>
      rw [classes_of_inner_eq_nil (by simp [inner, hkind])]
      simp [record?, entryClasses, hkind]
  | some kind =>
      cases kind with
      | classFile =>
          rw [classes_of_inner_eq_nil (by simp [inner, hkind])]
          simp [record?, entryClasses, hkind, EntryKind.classes]
      | archive => simp [classes, record?, inner, entryClasses, hkind, EntryKind.classes]

/-- Inside a file there is nothing, unless it can be opened as an archive. -/
theorem inner_file (format : ArchiveFormat) (name : String) (data : List UInt8) :
    (ArchiveEntry.file name data).inner format = []
      ∨ (EntryKind.ofName? name = some .archive
        ∧ format.entries data = .ok ((ArchiveEntry.file name data).inner format)) := by
  simp only [inner]
  split
  · next hkind =>
      cases format.entries data with
      | ok entries => exact Or.inr ⟨hkind, rfl⟩
      | error reason => exact Or.inl rfl
  · exact Or.inl rfl

end ArchiveEntry

namespace ArchiveTree

variable {format : ArchiveFormat} {entries : List ArchiveEntry}
  (tree : ArchiveTree format entries)

theorem filterMap_record?_listing (archives : List String) (position : Nat) :
    (tree.listing archives position).filterMap (·.entry.record?)
      = entries.flatMap (ArchiveEntry.classes format) := by
  induction tree generalizing archives position with
  | nil => rfl
  | cons entry inside others ihInside ihOthers =>
      have hinside : ((format.contents "" (entry.inner format)).getD {}).classes
          = (entry.inner format).flatMap (ArchiveEntry.classes format) := by
        rw [inside.contents_eq_ofPlaced, ← ihInside [] 0]
        rfl
      rw [listing, List.filterMap_eq_flatMap_toList, List.flatMap_cons,
        ← List.filterMap_eq_flatMap_toList, List.filterMap_append, ihInside, ihOthers,
        List.flatMap_cons, ArchiveEntry.classes, hinside, List.append_assoc]

end ArchiveTree

/-- An archive holds given files, in any order, and nothing else but folders. -/
structure Packs (packed : List ArchiveEntry) (files : List (String × List UInt8)) : Prop where
  held : (packed.filterMap ArchiveEntry.held?).Perm files
  others : ∀ entry ∈ packed, entry = .folder ∨ ∃ name data, entry = .file name data

namespace Packs

/-- Any files can be packed. -/
theorem ofFiles (files : List (String × List UInt8)) :
    Packs (files.map fun file => .file file.1 file.2) files := by
  refine ⟨?_, ?_⟩
  · rw [List.filterMap_map]
    exact .of_eq List.filterMap_some
  · intro entry hentry
    obtain ⟨file, -, rfl⟩ := List.mem_map.mp hentry
    exact Or.inr ⟨file.1, file.2, rfl⟩

variable {format : ArchiveFormat} {packed : List ArchiveEntry} {files : List (String × List UInt8)}

theorem flatMap_classes (h : Packs packed files) :
    (packed.flatMap (ArchiveEntry.classes format)).Perm (files.flatMap (entryClasses format)) := by
  have heq : packed.flatMap (ArchiveEntry.classes format)
      = (packed.filterMap ArchiveEntry.held?).flatMap (entryClasses format) := by
    rw [List.filterMap_eq_flatMap_toList, List.flatMap_assoc]
    refine List.flatMap_congr fun entry hentry => ?_
    rcases h.others entry hentry with rfl | ⟨name, data, rfl⟩
    · exact ArchiveEntry.classes_of_inner_eq_nil rfl
    · rw [ArchiveEntry.classes_file, ArchiveEntry.held?, Option.toList_some, List.flatMap_singleton]
  rw [heq]
  exact h.held.flatMap_right _

/-- Reading an archive of files comes to an end if reading the archives among them does, and gives
the classes of the files. -/
theorem exists_contents (h : Packs packed files)
    (hfinite : ∀ file ∈ files, EntryKind.ofName? file.1 = some .archive →
      ∀ inner, format.entries file.2 = .ok inner → Nonempty (ArchiveTree format inner))
    (location : String) : ∃ contents, format.contents location packed = some contents
      ∧ contents.classes.Perm (files.flatMap (entryClasses format)) := by
  obtain ⟨tree⟩ : Nonempty (ArchiveTree format packed) := by
    refine ArchiveTree.nonempty_of_forall fun entry hentry => ?_
    rcases h.others entry hentry with rfl | ⟨name, data, rfl⟩
    · exact ⟨.nil⟩
    · have hmem : (name, data) ∈ files :=
        h.held.mem_iff.mp (List.mem_filterMap.mpr ⟨_, hentry, rfl⟩)
      rcases ArchiveEntry.inner_file format name data with hinner | ⟨hkind, hopened⟩
      · rw [hinner]
        exact ⟨.nil⟩
      · exact hfinite _ hmem hkind _ hopened
  refine ⟨_, tree.contents_eq_ofPlaced location, ?_⟩
  show ((tree.listing [] 0).filterMap (·.entry.record?)).Perm _
  rw [tree.filterMap_record?_listing]
  exact h.flatMap_classes

end Packs

/-! ### Files that are read in two ways -/

/-- The name at the end of a path. -/
def Path.lastName (path : String) : List Char := ((fileName? path).getD "").toList

theorem Path.LeadsTo.lastName {path : String} {name : List Char} (h : LeadsTo path name) :
    lastName path = name := by
  rw [Path.lastName, h.fileName?, Option.getD_some, String.toList_ofList]

/-- A name that is nothing but a dot and an extension of classes or archives. -/
def IsBareExtension (name : List Char) : Prop :=
  ∃ extension ∈ "class" :: archiveExtensions, lowerCase name = '.' :: extension.toList

instance : DecidablePred IsBareExtension := fun _ => inferInstanceAs (Decidable (∃ _ ∈ _, _))

instance : DecidablePred IsNearDescriptor := fun _ => inferInstanceAs (Decidable (_ ∧ _))

theorem IsBareExtension.eq_of_suffix {name : List Char} (h : IsBareExtension name)
    {extension : List Char} (hdot : '.' ∉ extension)
    (hsuffix : '.' :: extension <:+ lowerCase name) : lowerCase name = '.' :: extension := by
  obtain ⟨own, hmem, hname⟩ := h
  have hown : '.' ∉ own.toList := by
    clear hname
    revert own
    decide
  rw [hname] at hsuffix ⊢
  rw [extension_inj hown hdot List.suffix_rfl hsuffix]

section Names

variable {path entry : String} {name : List Char}

/-- A bare extension makes no class and no archive of a file in a directory. -/
theorem IsBareExtension.entryKind? (hbare : IsBareExtension name) (hpath : Path.LeadsTo path name)
    (languages : List Language) :
    (InputKind.ofPath? languages path).bind InputKind.entryKind? = none := by
  cases hkind : InputKind.ofPath? languages path with
  | none => rfl
  | some kind =>
      cases kind with
      | classFile =>
          obtain ⟨hsuffix, hne, -⟩ := (InputKind.ofPath?_eq_classFile_iff hpath languages).mp hkind
          exact absurd (hbare.eq_of_suffix (by decide) hsuffix) hne
      | archive =>
          obtain ⟨extension, hmem, hsuffix, hne⟩ :=
            (InputKind.ofPath?_eq_archive_iff hpath languages).mp hkind
          exact absurd (hbare.eq_of_suffix (extension_of_archive hmem).1 hsuffix) hne
      | source language => rfl

namespace IsNearDescriptor

theorem suffix_classEnding (hnear : IsNearDescriptor name) : classEnding <:+ lowerCase name :=
  List.IsSuffix.trans (by decide) hnear.1

theorem ne_classEnding (hnear : IsNearDescriptor name) : lowerCase name ≠ classEnding := by
  intro heq
  have hsuffix := hnear.1
  rw [heq] at hsuffix
  exact absurd hsuffix (by decide)

theorem not_bare (hnear : IsNearDescriptor name) : ¬IsBareExtension name := fun hbare =>
  hnear.ne_classEnding (hbare.eq_of_suffix (by decide) hnear.suffix_classEnding)

theorem ofPath? (hnear : IsNearDescriptor name) (hpath : Path.LeadsTo path name)
    (languages : List Language) : InputKind.ofPath? languages path = some .classFile :=
  (InputKind.ofPath?_eq_classFile_iff hpath languages).mpr
    ⟨hnear.suffix_classEnding, hnear.ne_classEnding, hnear.2⟩

theorem ofName? (hnear : IsNearDescriptor name) (hentry : Path.LeadsTo entry name) :
    EntryKind.ofName? entry = none := by
  cases hkind : EntryKind.ofName? entry with
  | none => rfl
  | some kind =>
      cases kind with
      | classFile => exact absurd hnear.1 ((EntryKind.ofName?_eq_classFile_iff hentry).mp hkind).2
      | archive =>
          obtain ⟨extension, hmem, hsuffix⟩ := (EntryKind.ofName?_eq_archive_iff hentry).mp hkind
          exact absurd hsuffix (not_suffix_of_classEnding hnear.suffix_classEnding hmem)

end IsNearDescriptor

/-- Any other name is read in one way. -/
theorem entryKind?_eq_ofName? (hbare : ¬IsBareExtension name) (hnear : ¬IsNearDescriptor name)
    (hpath : Path.LeadsTo path name) (hentry : Path.LeadsTo entry name)
    (languages : List Language) :
    (InputKind.ofPath? languages path).bind InputKind.entryKind? = EntryKind.ofName? entry := by
  have hclass := (classFile_agrees_iff hpath hentry languages).mpr
    ⟨fun hname => hbare ⟨"class", List.mem_cons_self, hname⟩, hnear⟩
  have harchive := (archive_agrees_iff hpath hentry languages).mpr
    fun extension hmem hname => hbare ⟨extension, List.mem_cons_of_mem _ hmem, hname⟩
  refine Option.ext fun kind => ?_
  cases kind with
  | classFile =>
      rw [← hclass]
      rcases InputKind.ofPath? languages path with _ | (_ | _ | _) <;>
        simp [InputKind.entryKind?]
  | archive =>
      rw [← harchive]
      rcases InputKind.ofPath? languages path with _ | (_ | _ | _) <;>
        simp [InputKind.entryKind?]

end Names

/-- The class of a file that is missed when it is packed. -/
def missedClasses (file : String × List UInt8) : List ClassRecord :=
  if IsNearDescriptor (Path.lastName file.1) then (ClassRecord.ofBytes file.2).toOption.toList
  else []

/-- The classes of a file that turn up when it is packed. -/
def gainedClasses (format : ArchiveFormat) (file : String × List UInt8) : List ClassRecord :=
  if IsBareExtension (Path.lastName file.1) then entryClasses format file else []

theorem FileTree.SameFile.account {file other : String × List UInt8} (h : SameFile file other)
    (format : ArchiveFormat) (languages : List Language) :
    entryClasses format other ++ missedClasses other
      = directoryClasses format languages file ++ gainedClasses format other := by
  obtain ⟨hdata, name, hname, hother⟩ := h
  rw [missedClasses, gainedClasses, hother.lastName]
  by_cases hnear : IsNearDescriptor name
  · rw [if_pos hnear, if_neg hnear.not_bare, entryClasses, hnear.ofName? hother, directoryClasses,
      hnear.ofPath? hname, hdata]
    simp [InputKind.entryKind?, EntryKind.classes]
  · rw [if_neg hnear, List.append_nil]
    by_cases hbare : IsBareExtension name
    · rw [if_pos hbare, directoryClasses, hbare.entryKind? hname, Option.toList_none,
        List.flatMap_nil, List.nil_append]
    · rw [if_neg hbare, List.append_nil, directoryClasses, hdata,
        entryKind?_eq_ofName? hbare hnear hname hother, entryClasses]

/-! ### Packing -/

/-- Nothing stands in the way of reading a file: an archive of the directory can be opened, and one
that is opened unfolds to a finite tree. -/
structure CanBeRead (format : ArchiveFormat) (languages : List Language)
    (file : String × List UInt8) : Prop where
  opens : InputKind.ofPath? languages file.1 = some .archive →
    ∃ inner, format.entries file.2 = .ok inner
  finite : EntryKind.ofName? file.1 = some .archive →
    ∀ inner, format.entries file.2 = .ok inner → Nonempty (ArchiveTree format inner)

theorem append_append_perm {α : Type} (a b c d : List α) :
    (a ++ b ++ (c ++ d)).Perm (a ++ c ++ (b ++ d)) := by
  rw [List.append_assoc, List.append_assoc]
  exact (List.perm_append_comm_assoc b c d).append_left a

/-- The files of a directory and the same files in an archive give the same classes, up to those
that are missed and gained. -/
theorem flatMap_account {files others : List (String × List UInt8)}
    (h : List.Forall₂ FileTree.SameFile files others) (format : ArchiveFormat)
    (languages : List Language) :
    (others.flatMap (entryClasses format) ++ others.flatMap missedClasses).Perm
      (files.flatMap (directoryClasses format languages)
        ++ others.flatMap (gainedClasses format)) := by
  induction h with
  | nil => simp
  | cons hfile _ ih =>
      simp only [List.flatMap_cons]
      refine (append_append_perm _ _ _ _).trans ?_
      rw [hfile.account format languages]
      exact (ih.append_left _).trans (append_append_perm _ _ _ _)

theorem FileTree.SameFile.opens {file other : String × List UInt8} (h : SameFile file other)
    {format : ArchiveFormat} {languages : List Language} (hread : CanBeRead format languages other)
    (hkind : InputKind.ofPath? languages file.1 = some .archive) :
    ∃ inner, format.entries file.2 = .ok inner := by
  obtain ⟨hdata, name, hname, hother⟩ := h
  rw [InputKind.ofPath?_eq_archive_iff hname, ← InputKind.ofPath?_eq_archive_iff hother] at hkind
  rw [hdata]
  exact hread.opens hkind

theorem forall_opens {files others : List (String × List UInt8)}
    (h : List.Forall₂ FileTree.SameFile files others) {format : ArchiveFormat}
    {languages : List Language} (hread : ∀ other ∈ others, CanBeRead format languages other) :
    ∀ file ∈ files, InputKind.ofPath? languages file.1 = some .archive →
      ∃ inner, format.entries file.2 = .ok inner := by
  induction h with
  | nil => simp
  | cons hfile _ ih =>
      obtain ⟨hfirst, hrest⟩ := List.forall_mem_cons.mp hread
      exact List.forall_mem_cons.mpr ⟨hfile.opens hfirst, ih hrest⟩

/-- **Packing a directory loses and gains the classes of a few names only.**  An archive holds the
files that were come upon in a directory.  Then reading either comes to an end, and the archive
lacks the classes of the files whose names come near a descriptor, has those of the files whose
names are bare extensions besides, and gives the same ones otherwise. -/
theorem packing_exact (format : ArchiveFormat) (languages : List Language) (files : Files)
    (root location : String) {entries : List (String × FileTree)}
    {found given : List (String × List UInt8)} {packed : List ArchiveEntry}
    (hroot : files.get root = .ok (.directory entries)) (hwalk : files.walk root = .ok found)
    (hsame : List.Forall₂ FileTree.SameFile found given) (hpacks : Packs packed given)
    (hread : ∀ file ∈ given, CanBeRead format languages file) :
    ∃ inputs parts contents, InputFile.discover files languages root = .ok inputs ∧
      inputs.mapM (InputFile.read format) = .ok parts ∧
      format.contents location packed = some contents ∧
      (contents.classes ++ given.flatMap missedClasses).Perm
        ((Contents.concat parts).classes ++ given.flatMap (gainedClasses format)) ∧
      ((∀ file ∈ given, ¬IsNearDescriptor (Path.lastName file.1)
          ∧ ¬IsBareExtension (Path.lastName file.1)) →
        contents.classes.Perm (Contents.concat parts).classes) := by
  obtain ⟨parts, hparts, hclasses⟩ := InputFile.exists_mapM_read (forall_opens hsame hread)
  obtain ⟨contents, hcontents, hperm⟩ :=
    hpacks.exists_contents (fun file hfile => (hread file hfile).finite) location
  have haccount : (contents.classes ++ given.flatMap missedClasses).Perm
      ((Contents.concat parts).classes ++ given.flatMap (gainedClasses format)) := by
    rw [hclasses]
    exact (hperm.append_right _).trans (flatMap_account hsame format languages)
  refine ⟨_, parts, contents, InputFile.discover_directory hroot hwalk languages, hparts, hcontents,
    haccount, ?_⟩
  intro hplain
  have hmissed : given.flatMap missedClasses = [] :=
    List.flatMap_eq_nil_iff.mpr fun file hfile => if_neg (hplain file hfile).1
  have hgained : given.flatMap (gainedClasses format) = [] :=
    List.flatMap_eq_nil_iff.mpr fun file hfile => if_neg (hplain file hfile).2
  rwa [hmissed, hgained, List.append_nil, List.append_nil] at haccount

/-- An archive without entries. -/
def emptyArchive : List UInt8 := [80, 75, 5, 6] ++ List.replicate 18 0

/-- A directory with a class whose name ends like that of a descriptor. -/
def apiTree : List (String × FileTree) :=
  [("api", .directory [("A.class", .file plainClass), ("api-module-info.class", .file plainClass)]),
    ("deps.jar", .file emptyArchive), ("module-info.class", .file plainClass)]

/-- Packing that directory into a zip archive loses one class. -/
theorem apiTree_loses_class :
    ∃ inputs parts contents,
      InputFile.discover (.ofTrees fun _ => .ok (.directory apiTree)) [] "." = .ok inputs ∧
      inputs.mapM (InputFile.read Zip.format) = .ok parts ∧
      Zip.format.contents "api.jar" ((FileTree.filesOfEntries "" apiTree).map
        fun file => .file file.1 file.2) = some contents ∧
      contents.classes.length + 1 = (Contents.concat parts).classes.length := by
  have hfiles : FileTree.filesOfEntries "" apiTree
      = [("api/A.class", plainClass), ("api/api-module-info.class", plainClass),
        ("deps.jar", emptyArchive), ("module-info.class", plainClass)] := by decide +kernel
  have hentries : Zip.format.entries emptyArchive = .ok [] := by decide +kernel
  have hclass : ∀ path data, EntryKind.ofName? path ≠ some .archive →
      InputKind.ofPath? [] path ≠ some .archive → CanBeRead Zip.format [] (path, data) :=
    fun _ _ hentry hpath => ⟨fun h => absurd h hpath, fun h => absurd h hentry⟩
  have harchive : CanBeRead Zip.format [] ("deps.jar", emptyArchive) := by
    refine ⟨fun _ => ⟨[], hentries⟩, fun _ inner hinner => ?_⟩
    obtain rfl : [] = inner := Except.ok.inj (hentries.symm.trans hinner)
    exact ⟨.nil⟩
  have hread : ∀ file ∈ FileTree.filesOfEntries "" apiTree, CanBeRead Zip.format [] file := by
    rw [hfiles]
    simp only [List.forall_mem_cons]
    exact ⟨hclass _ _ (by decide +kernel) (by decide +kernel),
      hclass _ _ (by decide +kernel) (by decide +kernel), harchive,
      hclass _ _ (by decide +kernel) (by decide +kernel), by simp⟩
  have hname : ∀ name : String, '/' ∉ name.toList ∧ name.toList ≠ [] ∧ name.toList ≠ ['.']
      ∧ name.toList ≠ ['.', '.'] → Path.LeadsTo name name.toList :=
    fun name h => ⟨⟨[], rfl, Or.inl rfl⟩, h.1, h.2⟩
  have hnamed : FileTree.AreNamed apiTree :=
    ⟨hname _ (by decide), ⟨hname _ (by decide), trivial, hname _ (by decide), trivial, trivial⟩,
      hname _ (by decide), trivial, hname _ (by decide), trivial, trivial⟩
  obtain ⟨inputs, parts, contents, hinputs, hparts, hcontents, hperm, -⟩ :=
    packing_exact Zip.format [] (.ofTrees fun _ => .ok (.directory apiTree)) "." "api.jar" rfl rfl
      (FileTree.forall₂_filesOfEntries "." "" apiTree hnamed) (Packs.ofFiles _) hread
  refine ⟨inputs, parts, contents, hinputs, hparts, hcontents, ?_⟩
  have hmissed : ((FileTree.filesOfEntries "" apiTree).flatMap missedClasses).length = 1 := by
    decide +kernel
  have hgained : ((FileTree.filesOfEntries "" apiTree).flatMap (gainedClasses Zip.format)).length
      = 0 := by decide +kernel
  have hlength := hperm.length_eq
  rwa [List.length_append, List.length_append, hmissed, hgained] at hlength

end PackageAudit
