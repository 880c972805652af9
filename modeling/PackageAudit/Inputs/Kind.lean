/-
What an input is, by its name.

Files are told apart by the extension of their path, entries of archives by the end of their
name.  The descriptor of a module is no class.
-/
import PackageAudit.Source.Language

namespace PackageAudit

/-- The extensions of archives. -/
def archiveExtensions : List String := ["jar", "zip", "war", "ear"]

/-- The name of the file that describes a module. -/
def moduleDescriptor : String := "module-info.class"

/-- What a file is read as. -/
inductive InputKind where
  | classFile
  | archive
  | source (language : Language)
  deriving DecidableEq, Repr

/-- What a file is read as, by its path.  Extensions of classes and archives count in either case;
source files count if their language is one of the given ones. -/
def InputKind.ofPath? (languages : List Language) (path : String) : Option InputKind := do
  let extension := Language.lowered (← Path.extension? path)
  if extension == "class" then
    if Path.fileName? path == some moduleDescriptor then none else some .classFile
  else if archiveExtensions.contains extension then some .archive
  else
    match Language.ofPath? path with
    | some language => if languages.contains language then some (.source language) else none
    | none => none

/-- What an entry of an archive is read as. -/
inductive EntryKind where
  | classFile
  | archive
  deriving DecidableEq, Repr

namespace EntryKind

/-- Whether a name ends with a text. -/
def endsWith (name ending : String) : Bool := ending.toList.isSuffixOf name.toList

/-- What an entry is read as, by its name, in either case. -/
def ofName? (name : String) : Option EntryKind :=
  let lower := Language.lowered name
  if endsWith lower ".class" && !endsWith lower moduleDescriptor then some .classFile
  else if archiveExtensions.any fun extension => endsWith lower ("." ++ extension) then
    some .archive
  else none

end EntryKind

end PackageAudit
