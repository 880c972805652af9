/-
Package names, and which packages are left out of a model or put together.

The package of a class is the part of its name before the last dot.  A filter leaves out
the classes whose names start with one of its ignore stems, and puts the packages that
start with a merge stem together into one.
-/
namespace PackageAudit

/-- The name for the package of classes that have none. -/
def unnamedPackage : String := "<Unnamed Package>"

/-- The part of a text before its last dot, if it has a dot. -/
def beforeLastDot? (text : List Char) : Option (List Char) :=
  match text.reverse.dropWhile (· ≠ '.') with
  | [] => none
  | _ :: rest => some rest.reverse

/-- The package of a class, by the name of the class. -/
def packageName (className : String) : String :=
  match beforeLastDot? className.toList with
  | none => unnamedPackage
  | some package => String.ofList package

/-- A text without the given character at its end, however often it stands there. -/
def trimEnd (c : Char) (text : String) : String :=
  String.ofList (text.toList.reverse.dropWhile (· == c)).reverse

/-- Whether one text starts with another. -/
def startsWith (text stem : String) : Bool := stem.toList.isPrefixOf text.toList

/-- What is left out of a model and what is put together: stems of class names that are ignored,
and stems of package names that are merged. -/
structure PackageFilter where
  ignore : List String := []
  merge : List String := []
  deriving DecidableEq, Repr

namespace PackageFilter

/-- A filter from stems as they are written, where asterisks at the end have no meaning. -/
def ofStems (ignore merge : List String) : PackageFilter :=
  ⟨ignore.map (trimEnd '*'), merge.map (trimEnd '*')⟩

/-- Whether classes of this name are left out. -/
def isIgnored (filter : PackageFilter) (className : String) : Bool :=
  filter.ignore.any (startsWith className)

/-- Whether a merge stem takes in a package: the package starts with it, or is the stem without
its dots at the end. -/
def covers (stem package : String) : Bool :=
  startsWith package stem || package == trimEnd '.' stem

/-- The package that a package goes into: that of the first merge stem that takes it in. -/
def merged (filter : PackageFilter) (package : String) : String :=
  match filter.merge.find? (covers · package) with
  | none => package
  | some stem => trimEnd '.' stem

/-- The package that a class is put into. -/
def packageFor (filter : PackageFilter) (className : String) : String :=
  filter.merged (packageName className)

end PackageFilter

end PackageAudit
