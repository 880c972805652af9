/-
What a file is, by its name, in a directory and in an archive.

In a directory a file is told by the extension of its path, in an archive by the end of its name.
Both ways look at the last part of the name only and ask, in either case of letters, whether it
ends with a dot and one of a few extensions.  They part where the name is nothing but that, which
a path does not take for an extension; and over the descriptor of a module, which is told by its
whole name in a directory, and by the end of the name and in either case in an archive.
-/
import Mathlib.Data.List.Induction
import Mathlib.Data.List.TakeWhile
import PackageAudit.Inputs.Kind

namespace PackageAudit

/-! ### The name at the end of a path -/

namespace Path

/-- A text has another at its end, which starts there or stands behind a slash. -/
def EndsIn (text name : List Char) : Prop :=
  ∃ folder, text = folder ++ name ∧ (folder = [] ∨ folder.getLast? = some '/')

/-- A path leads to a file of a given name, which must be one that a file can have. -/
structure LeadsTo (path : String) (name : List Char) : Prop where
  ends : EndsIn path.toList name
  no_slash : '/' ∉ name
  proper : name ≠ [] ∧ name ≠ ['.'] ∧ name ≠ ['.', '.']

theorem EndsIn.tail {c : Char} {rest name : List Char} (h : EndsIn (c :: rest) name)
    (hne : name ≠ c :: rest) : EndsIn rest name := by
  obtain ⟨folder, heq, hfolder⟩ := h
  cases folder with
  | nil => exact absurd heq.symm hne
  | cons d folder =>
      obtain ⟨rfl, rfl⟩ := List.cons.inj heq
      refine ⟨folder, rfl, ?_⟩
      cases folder with
      | nil => exact Or.inl rfl
      | cons e folder =>
          rcases hfolder with hnil | hlast
          · cases hnil
          · exact Or.inr hlast

theorem EndsIn.splitStart {text name : List Char} (h : EndsIn text name) (hslash : '/' ∉ name)
    (hdot : name ≠ ['.']) : EndsIn (splitStart text).2.2 name := by
  unfold Path.splitStart
  split
  · refine h.tail ?_
    rintro rfl
    simp at hslash
  · exact h.tail hdot
  · refine h.tail ?_
    rintro rfl
    simp at hslash
  · exact h

theorem EndsIn.exists_pieces {text name : List Char} (h : EndsIn text name)
    (hslash : '/' ∉ name) : ∃ others, pieces text = others ++ [name] := by
  obtain ⟨folder, rfl, rfl | hlast⟩ := h
  · exact ⟨[], List.splitOn_eq_singleton hslash⟩
  · obtain ⟨init, rfl⟩ := List.getLast?_eq_some_iff.mp hlast
    refine ⟨pieces init, ?_⟩
    rw [pieces, List.append_assoc, List.singleton_append, List.splitOn_append_cons_self,
      List.splitOn_eq_singleton hslash]
    rfl

variable {path : String} {name : List Char}

theorem LeadsTo.fileName? (h : LeadsTo path name) : fileName? path = some (String.ofList name) := by
  obtain ⟨hnil, hdot, hdots⟩ := h.proper
  obtain ⟨others, hpieces⟩ :=
    (EndsIn.splitStart h.ends h.no_slash hdot).exists_pieces h.no_slash
  have hname : isTrivial name = false := by simp [isTrivial, hnil, hdot]
  have hlast : (components path).getLast? = some (.normal (String.ofList name)) := by
    simp [components, hpieces, hname, Component.ofPiece, hdots]
  rw [Path.fileName?, hlast]

theorem LeadsTo.extension? (h : LeadsTo path name) : extension? path = extensionOf? name := by
  rw [Path.extension?, h.fileName?, Option.bind_some, String.toList_ofList]

theorem extensionOf?_of_not_mem (hdot : '.' ∉ name) : extensionOf? name = none := by
  have hdrop : name.reverse.dropWhile (· ≠ '.') = [] := by
    rw [List.dropWhile_eq_nil_iff]
    intro c hc
    simp only [decide_eq_true_eq]
    rintro rfl
    exact hdot (List.mem_reverse.mp hc)
  rw [extensionOf?, hdrop]

theorem extensionOf?_append {stem extension : List Char} (hdot : '.' ∉ extension) :
    extensionOf? (stem ++ '.' :: extension)
      = if stem = [] then none else some (String.ofList extension) := by
  have hall : ∀ c ∈ extension.reverse, decide (c ≠ '.') = true := by
    intro c hc
    simp only [decide_eq_true_eq]
    rintro rfl
    exact hdot (List.mem_reverse.mp hc)
  have hreverse : (stem ++ '.' :: extension).reverse
      = extension.reverse ++ '.' :: stem.reverse := by simp
  have hdrop : (stem ++ '.' :: extension).reverse.dropWhile (· ≠ '.') = '.' :: stem.reverse := by
    rw [hreverse, List.dropWhile_append_of_pos hall, List.dropWhile_cons_of_neg (by simp)]
  have htake : (stem ++ '.' :: extension).reverse.takeWhile (· ≠ '.') = extension.reverse := by
    rw [hreverse, List.takeWhile_append_of_pos hall, List.takeWhile_cons_of_neg (by simp),
      List.append_nil]
  rw [extensionOf?, hdrop, htake, List.reverse_reverse]
  cases stem using List.reverseRecOn with
  | nil => rfl
  | append_singleton stem c => simp

end Path

theorem toLower_eq_dot {c : Char} (h : c.toLower = '.') : c = '.' := by
  unfold Char.toLower at h
  split at h
  · -- A letter in lower case is no dot.
    next hupper =>
      have hval : (c.val + 32).toNat = 46 := congrArg (fun d : Char => d.val.toNat) h
      have hfirst : 65 ≤ c.val.toNat := UInt32.le_iff_toNat_le.mp hupper.1
      have hlast : c.val.toNat ≤ 90 := UInt32.le_iff_toNat_le.mp hupper.2
      rw [UInt32.toNat_add, show (32 : UInt32).toNat = 32 from rfl] at hval
      omega
  · exact h

/-- A text with its letters in lower case. -/
def lowerCase (text : List Char) : List Char := text.map Char.toLower

/-- A name has an extension, in either case of letters, if it ends with a dot and the extension and
is more than that. -/
theorem exists_extension_iff {name extension : List Char} (hdot : '.' ∉ extension) :
    (∃ found, Path.extensionOf? name = some found
        ∧ Language.lowered found = String.ofList extension) ↔
      '.' :: extension <:+ lowerCase name ∧ lowerCase name ≠ '.' :: extension := by
  refine ⟨?_, ?_⟩
  · rintro ⟨found, hfound, hlower⟩
    by_cases hmem : '.' ∈ name
    · -- The extension stands behind the last dot.
      obtain ⟨tail, init, hname, htail⟩ :=
        List.eq_append_cons_of_mem (List.mem_reverse.mpr hmem)
      have hname : name = init.reverse ++ '.' :: tail.reverse := by
        rw [← List.reverse_reverse name, hname]
        simp
      rw [hname, Path.extensionOf?_append (by simpa using htail)] at hfound
      split at hfound
      · cases hfound
      · next hstem =>
          obtain rfl := Option.some.inj hfound
          rw [Language.lowered, String.ofList_inj, String.toList_ofList] at hlower
          have hcase : lowerCase name = lowerCase init.reverse ++ '.' :: extension := by
            rw [hname, lowerCase, List.map_append, List.map_cons, hlower]
            rfl
          refine ⟨⟨_, hcase.symm⟩, ?_⟩
          rw [hcase]
          intro heq
          exact hstem (List.map_eq_nil_iff.mp (List.append_left_eq_self.mp heq))
    · rw [Path.extensionOf?_of_not_mem hmem] at hfound
      cases hfound
  · rintro ⟨⟨stem, hcase⟩, hne⟩
    obtain ⟨init, tail, rfl, hinit, htail⟩ := List.map_eq_append_iff.mp hcase.symm
    obtain ⟨c, found, rfl, hc, hfound⟩ := List.map_eq_cons_iff.mp htail
    obtain rfl := toLower_eq_dot hc
    have hnot : '.' ∉ found := fun hmem => hdot (hfound ▸ List.mem_map_of_mem hmem)
    refine ⟨String.ofList found, ?_, ?_⟩
    · rw [Path.extensionOf?_append hnot, if_neg]
      rintro rfl
      exact hne htail
    · rw [Language.lowered, String.toList_ofList, hfound]

/-! ### Kinds -/

section Kinds

variable {path : String} {name : List Char}

/-- An ending without a slash is one of the name at the end of a path. -/
theorem Path.EndsIn.suffix_lowerCase_iff {text ending : List Char} (h : EndsIn text name)
    (hslash : '/' ∉ ending) : ending <:+ lowerCase text ↔ ending <:+ lowerCase name := by
  obtain ⟨folder, rfl, rfl | hlast⟩ := h
  · rfl
  · obtain ⟨init, rfl⟩ := List.getLast?_eq_some_iff.mp hlast
    have hlower : lowerCase (init ++ ['/'] ++ name) = lowerCase init ++ '/' :: lowerCase name := by
      simp [lowerCase]
    rw [hlower]
    refine ⟨?_, fun hsuffix => hsuffix.trans ⟨lowerCase init ++ ['/'], by simp⟩⟩
    intro hsuffix
    rcases List.suffix_or_suffix_of_suffix hsuffix (List.suffix_append _ _) with hin | hover
    · rcases List.suffix_cons_iff.mp hin with rfl | hin
      · simp at hslash
      · exact hin
    · exact absurd (hover.mem List.mem_cons_self) hslash

/-- The extension of classes, with its dot. -/
def classEnding : List Char := '.' :: "class".toList

/-- No text ends with two different extensions. -/
theorem extension_inj {text extension other : List Char} (hdot : '.' ∉ extension)
    (hdot' : '.' ∉ other) (h : '.' :: extension <:+ text) (h' : '.' :: other <:+ text) :
    extension = other := by
  rcases List.suffix_or_suffix_of_suffix h h' with hin | hin
  · rcases List.suffix_cons_iff.mp hin with heq | hin
    · exact (List.cons.inj heq).2
    · exact absurd (hin.mem List.mem_cons_self) hdot'
  · rcases List.suffix_cons_iff.mp hin with heq | hin
    · exact (List.cons.inj heq).2.symm
    · exact absurd (hin.mem List.mem_cons_self) hdot

theorem extension_of_archive {extension : String} (h : extension ∈ archiveExtensions) :
    '.' ∉ extension.toList ∧ '/' ∉ extension.toList ∧ extension ≠ "class" := by
  revert extension
  decide

theorem not_suffix_of_classEnding {text : List Char} (h : classEnding <:+ text) {extension : String}
    (hmem : extension ∈ archiveExtensions) : ¬ '.' :: extension.toList <:+ text := by
  obtain ⟨hdot, -, hne⟩ := extension_of_archive hmem
  intro hsuffix
  exact hne (String.toList_inj.mp (extension_inj hdot (by decide) hsuffix h))

theorem EntryKind.endsWith_lowered_iff {ending : String} :
    endsWith (Language.lowered path) ending = true ↔ ending.toList <:+ lowerCase path.toList := by
  rw [endsWith, List.isSuffixOf_iff_suffix, Language.lowered, String.toList_ofList]
  rfl

theorem EntryKind.ofName?_eq_classFile_iff (h : Path.LeadsTo path name) :
    ofName? path = some .classFile ↔
      classEnding <:+ lowerCase name ∧ ¬moduleDescriptor.toList <:+ lowerCase name := by
  rw [← h.ends.suffix_lowerCase_iff (by decide), ← h.ends.suffix_lowerCase_iff (by decide),
    show classEnding = ".class".toList by decide, ← endsWith_lowered_iff, ← endsWith_lowered_iff,
    ofName?]
  split
  · next hclass => simpa using hclass
  · next hclass =>
      split <;> simpa using hclass

theorem EntryKind.ofName?_eq_archive_iff (h : Path.LeadsTo path name) :
    ofName? path = some .archive ↔
      ∃ extension ∈ archiveExtensions, '.' :: extension.toList <:+ lowerCase name := by
  have hany : (archiveExtensions.any fun extension =>
      endsWith (Language.lowered path) ("." ++ extension)) = true ↔
        ∃ extension ∈ archiveExtensions, '.' :: extension.toList <:+ lowerCase name := by
    rw [List.any_eq_true]
    refine exists_congr fun extension => and_congr_right fun hmem => ?_
    have hslash : '/' ∉ '.' :: extension.toList := by
      simpa using (extension_of_archive hmem).2.1
    rw [endsWith_lowered_iff, String.toList_append, ← h.ends.suffix_lowerCase_iff hslash]
    rfl
  by_cases hclass : ofName? path = some .classFile
  · -- A class has another extension.
    rw [hclass]
    refine ⟨fun hc => absurd hc (by decide), ?_⟩
    rintro ⟨extension, hmem, hsuffix⟩
    have hending := ((ofName?_eq_classFile_iff h).mp hclass).1
    exact absurd hsuffix (not_suffix_of_classEnding hending hmem)
  · rw [← hany]
    have hcases : ofName? path = if endsWith (Language.lowered path) ".class"
          && !endsWith (Language.lowered path) moduleDescriptor then some .classFile
        else if archiveExtensions.any fun extension =>
          endsWith (Language.lowered path) ("." ++ extension) then some .archive
        else none := rfl
    rw [hcases] at hclass ⊢
    split at hclass
    · exact absurd rfl hclass
    · next hnot => simp [hnot]

/-- What a file is in a directory depends on the extension of the name at the end of its path. -/
theorem InputKind.ofPath?_eq (h : Path.LeadsTo path name) (languages : List Language) :
    ofPath? languages path = (Path.extensionOf? name).bind fun extension =>
      if Language.lowered extension = "class" then
        if name = moduleDescriptor.toList then none else some .classFile
      else if Language.lowered extension ∈ archiveExtensions then some .archive
      else (Language.ofPath? path).bind fun language =>
        if language ∈ languages then some (.source language) else none := by
  have hname : (Path.fileName? path == some moduleDescriptor) = true ↔
      name = moduleDescriptor.toList := by
    rw [h.fileName?, beq_iff_eq, Option.some.injEq, ← String.toList_inj, String.toList_ofList]
  unfold ofPath?
  rw [h.extension?]
  cases Path.extensionOf? name with
  | none => rfl
  | some extension =>
      simp only [hname, Option.bind_some, bind, beq_iff_eq, List.contains_iff_mem]
      cases Language.ofPath? path <;> rfl

theorem InputKind.ofPath?_eq_classFile_iff (h : Path.LeadsTo path name)
    (languages : List Language) : ofPath? languages path = some .classFile ↔
      classEnding <:+ lowerCase name ∧ lowerCase name ≠ classEnding
        ∧ name ≠ moduleDescriptor.toList := by
  rw [← and_assoc, classEnding, ← exists_extension_iff (by decide), String.ofList_toList,
    ofPath?_eq h]
  cases Path.extensionOf? name with
  | none => simp
  | some extension =>
      by_cases hclass : Language.lowered extension = "class"
      · by_cases hname : name = moduleDescriptor.toList <;> simp [hclass, hname]
      · by_cases harchive : Language.lowered extension ∈ archiveExtensions
        · simp [hclass, harchive]
        · cases Language.ofPath? path <;> simp [hclass, harchive]

theorem InputKind.ofPath?_eq_archive_iff (h : Path.LeadsTo path name)
    (languages : List Language) : ofPath? languages path = some .archive ↔
      ∃ extension ∈ archiveExtensions, '.' :: extension.toList <:+ lowerCase name
        ∧ lowerCase name ≠ '.' :: extension.toList := by
  have hextension : (∃ extension ∈ archiveExtensions, '.' :: extension.toList <:+ lowerCase name
        ∧ lowerCase name ≠ '.' :: extension.toList) ↔
      ∃ extension ∈ archiveExtensions, ∃ found, Path.extensionOf? name = some found
        ∧ Language.lowered found = extension := by
    refine exists_congr fun extension => and_congr_right fun hmem => ?_
    rw [← exists_extension_iff (extension_of_archive hmem).1, String.ofList_toList]
  have hclass : "class" ∉ archiveExtensions := by decide
  rw [hextension, ofPath?_eq h]
  cases Path.extensionOf? name with
  | none => simp
  | some extension =>
      by_cases hkind : Language.lowered extension = "class"
      · by_cases hname : name = moduleDescriptor.toList <;> simp [hkind, hname, hclass]
      · by_cases harchive : Language.lowered extension ∈ archiveExtensions
        · simp [hkind, harchive]
        · cases Language.ofPath? path <;> simp [hkind, harchive]

/-- A name that has the end of the descriptor of a module, in either case of letters, and is not
that name itself. -/
def IsNearDescriptor (name : List Char) : Prop :=
  moduleDescriptor.toList <:+ lowerCase name ∧ name ≠ moduleDescriptor.toList

variable {entry : String} (h : Path.LeadsTo path name) (hentry : Path.LeadsTo entry name)
  (languages : List Language)
include h hentry

/-- A path and an entry of the same name agree on being a class, unless the name is nothing but the
extension, or comes near the descriptor of a module. -/
theorem classFile_agrees_iff :
    (InputKind.ofPath? languages path = some .classFile ↔
        EntryKind.ofName? entry = some .classFile)
      ↔ lowerCase name ≠ classEnding ∧ ¬IsNearDescriptor name := by
  rw [InputKind.ofPath?_eq_classFile_iff h, EntryKind.ofName?_eq_classFile_iff hentry,
    IsNearDescriptor]
  have hdescriptor : classEnding <:+ moduleDescriptor.toList := by decide
  have hlong : ¬moduleDescriptor.toList <:+ classEnding := by decide
  have hself : moduleDescriptor.toList <:+ lowerCase moduleDescriptor.toList := by decide
  by_cases hbare : lowerCase name = classEnding
  · rw [hbare]
    simp [hlong]
  · by_cases hnear : moduleDescriptor.toList <:+ lowerCase name
    · have hclass := hdescriptor.trans hnear
      simp [hbare, hnear, hclass]
    · have hname : name ≠ moduleDescriptor.toList := by
        rintro rfl
        exact hnear hself
      simp [hbare, hnear, hname]

/-- They agree on being an archive, unless the name is nothing but the extension. -/
theorem archive_agrees_iff :
    (InputKind.ofPath? languages path = some .archive ↔ EntryKind.ofName? entry = some .archive)
      ↔ ∀ extension ∈ archiveExtensions, lowerCase name ≠ '.' :: extension.toList := by
  rw [InputKind.ofPath?_eq_archive_iff h, EntryKind.ofName?_eq_archive_iff hentry]
  refine ⟨?_, ?_⟩
  · intro hagree extension hmem hbare
    obtain ⟨other, hother, hsuffix, hne⟩ := hagree.mpr ⟨extension, hmem, hbare ▸ List.suffix_rfl⟩
    have hsame := extension_inj (extension_of_archive hmem).1 (extension_of_archive hother).1
      (hbare ▸ List.suffix_rfl) hsuffix
    exact hne (hsame ▸ hbare)
  · intro hbare
    exact exists_congr fun extension => and_congr_right fun hmem =>
      and_iff_left (hbare extension hmem)

end Kinds

/-- **A directory and an archive agree on what a file is, but for a few names.**  A file is a class
in both or in neither of them, unless its name is nothing but the extension, or ends like the
descriptor of a module without being that name; it is an archive in both or in neither, unless its
name is nothing but the extension. -/
theorem kinds_agree_iff (languages : List Language) {path entry : String} {name : List Char}
    (hpath : Path.LeadsTo path name) (hentry : Path.LeadsTo entry name) :
    ((InputKind.ofPath? languages path = some .classFile ↔
        EntryKind.ofName? entry = some .classFile)
      ↔ lowerCase name ≠ classEnding ∧ ¬IsNearDescriptor name)
    ∧ ((InputKind.ofPath? languages path = some .archive ↔
        EntryKind.ofName? entry = some .archive)
      ↔ ∀ extension ∈ archiveExtensions, lowerCase name ≠ '.' :: extension.toList) :=
  ⟨classFile_agrees_iff hpath hentry languages, archive_agrees_iff hpath hentry languages⟩

/-- A class whose name ends like that of a descriptor is read in a directory only; a class and an
archive with plain names are read in both. -/
theorem nearDescriptor_disagrees :
    (InputKind.ofPath? [] "api/api-module-info.class" = some .classFile
      ∧ EntryKind.ofName? "api/api-module-info.class" = none
      ∧ IsNearDescriptor "api-module-info.class".toList)
    ∧ (InputKind.ofPath? [] "api/A.class" = some .classFile ↔
      EntryKind.ofName? "api/A.class" = some .classFile)
    ∧ (InputKind.ofPath? [] "lib/deps.jar" = some .archive ↔
      EntryKind.ofName? "lib/deps.jar" = some .archive) := by
  have hnear : Path.LeadsTo "api/api-module-info.class" "api-module-info.class".toList :=
    ⟨⟨"api/".toList, by decide, Or.inr (by decide)⟩, by decide, by decide⟩
  have hclass : Path.LeadsTo "api/A.class" "A.class".toList :=
    ⟨⟨"api/".toList, by decide, Or.inr (by decide)⟩, by decide, by decide⟩
  have harchive : Path.LeadsTo "lib/deps.jar" "deps.jar".toList :=
    ⟨⟨"lib/".toList, by decide, Or.inr (by decide)⟩, by decide, by decide⟩
  have hpath : InputKind.ofPath? [] "api/api-module-info.class" = some .classFile := by
    decide +kernel
  have hentry : EntryKind.ofName? "api/api-module-info.class" = none := by decide +kernel
  refine ⟨⟨hpath, hentry, ?_⟩, ?_, ?_⟩
  · by_contra hplain
    have hagree := (kinds_agree_iff [] hnear hnear).1.mpr ⟨by decide, hplain⟩
    rw [hentry] at hagree
    cases hagree.mp hpath
  · exact (kinds_agree_iff [] hclass hclass).1.mpr ⟨by decide, fun h => absurd h.1 (by decide)⟩
  · exact (kinds_agree_iff [] harchive harchive).2.mpr (by decide)

end PackageAudit
