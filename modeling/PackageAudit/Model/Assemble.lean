/-
Putting class records together into a model.

The classes of a model are those that are declared, and those that a declared class
mentions, which are called stubs unless they are declared themselves.  Of several records
of one name the first counts.  Records of ignored names play no part, and records that
carry the annotations of a package declare no class but make the package known.
-/
import PackageAudit.Model.Basic
import PackageAudit.PackageFilter

namespace PackageAudit

/-- What a list of records declares: an ascending table of the records by name, and an ascending
table of packages with their annotations. -/
structure Declarations where
  records : List (String × ClassRecord) := []
  packageAnnotations : List (String × List String) := []
  deriving DecidableEq, Repr

namespace Declarations

/-- Takes up a record. -/
def add (filter : PackageFilter) (declarations : Declarations) (record : ClassRecord) :
    Declarations :=
  if filter.isIgnored record.name then declarations
  else if record.isPackageInfo then
    { declarations with
      packageAnnotations := Ascending.alter (filter.packageFor record.name)
        (fun known => Ascending.union (known.getD []) record.annotations)
        declarations.packageAnnotations }
  else
    { declarations with
      records := Ascending.insertNew record.name record declarations.records }

/-- What a list of records declares. -/
def ofRecords (filter : PackageFilter) (records : List ClassRecord) : Declarations :=
  records.foldl (add filter) {}

/-- The names of the classes of the model: those that are declared, and those that a declared
class mentions. -/
def classNames (filter : PackageFilter) (declarations : Declarations) : List String :=
  Ascending.union (declarations.records.map Prod.fst)
    ((declarations.records.flatMap fun (_, record) => record.references.map Prod.fst).filter
      fun name => !filter.isIgnored name)

/-- The names of the packages of the model. -/
def packageNames (filter : PackageFilter) (declarations : Declarations)
    (classNames : List String) : List String :=
  Ascending.union (Ascending.ofList (classNames.map filter.packageFor))
    (declarations.packageAnnotations.map Prod.fst)

end Declarations

/-! ### Sources -/

/-- The directories of a package as a path: one step for each part of its name. -/
def packagePath (package : String) : String :=
  if package = unnamedPackage then ""
  else ((package.toList.splitOn '.').map String.ofList).foldl Path.join ""

/-- The source of a class with a given package and source file: a file of that name in a
directory that ends with the directories of the package, or else any file of that name.
Among several the first counts. -/
def SourceRecord.forClass? (sources : List SourceRecord) (package fileName : String) :
    Option SourceRecord :=
  let candidates := sources.filter (·.fileName == fileName)
  (candidates.find? fun source => Path.endsWith source.directory (packagePath package)).or
    candidates.head?

/-! ### Classes -/

/-- The position of a name in a table. -/
def position? (names : List String) (name : String) : Option Nat :=
  names.findIdx? (· == name)

/-- The node of a class that is declared by a record. -/
def ClassNode.ofRecord (classNames : List String) (sources : List SourceRecord)
    (package : PackageId) (record : ClassRecord) : ClassNode where
  name := record.name
  package := package
  analyzed := true
  codeSize := record.codeSize
  totalSize := record.totalSize
  concrete := record.concrete
  kind := record.kind
  sourceFile := record.sourceFile
  source := record.sourceFile.bind fun fileName =>
    (SourceRecord.forClass? sources (packageName record.name) fileName).map (·.counts)
  annotations := record.annotations
  superClass := record.superClass
  interfaces := record.interfaces
  uses := Ascending.ofPairs <|
    (record.references.filter fun (_, count) => count > 0).filterMap fun (target, count) =>
      (position? classNames target).map fun i => (ClassId.ofPosition i, count)

/-- The node of a class that is only mentioned. -/
def ClassNode.stub (name : String) (package : PackageId) : ClassNode where
  name := name
  package := package
  analyzed := false
  codeSize := 0
  totalSize := 0
  concrete := false
  kind := .topLevel
  sourceFile := none
  source := none
  annotations := []
  superClass := none
  interfaces := []
  uses := []

/-- The node of a class of the model. -/
def Declarations.node (declarations : Declarations) (filter : PackageFilter)
    (classNames packageNames : List String) (sources : List SourceRecord) (name : String) :
    ClassNode :=
  let package := PackageId.ofPosition
    ((position? packageNames (filter.packageFor name)).getD packageNames.length)
  match Ascending.find? name declarations.records with
  | some record => ClassNode.ofRecord classNames sources package record
  | none => ClassNode.stub name package

/-! ### Packages -/

/-- Adds the lines of a class to those of its package, unless the file was counted before. -/
def addLines (counted : List String × Option LineCounts) (node : ClassNode) :
    List String × Option LineCounts :=
  match node.sourceFile, node.source with
  | some file, some counts =>
    if counted.1.contains file then counted
    else (file :: counted.1, some (counted.2.getD {} + counts))
  | _, _ => counted

/-- The sizes of a package, from its classes. -/
def PackageSizes.ofMembers (members : List ClassNode) : PackageSizes :=
  let analyzed := members.filter (·.analyzed)
  { classes := analyzed.length
    codeSize := analyzed.foldl (fun total node => total + node.codeSize) 0
    totalSize := analyzed.foldl (fun total node => total + node.totalSize) 0
    lines := (members.foldl addLines ([], none)).2 }

/-- The packages other than its own that a class uses, given the classes of the model. -/
def ClassNode.usedPackages (classes : Array ClassNode) (node : ClassNode) : List PackageId :=
  (node.uses.filterMap fun (used, _) => (classes[used.position]?).map (·.package)).filter
    (· ≠ node.package)

/-- The package at a position, from the classes of the model.  What its classes use is looked up by
their ids. -/
def Package.derive (declarations : Declarations) (classes : Array ClassNode) (name : String)
    (position : Nat) : Package :=
  let members := classes.toList.zipIdx.filter fun (node, _) => node.package.position == position
  let ids := members.map fun (_, i) => ClassId.ofPosition i
  let nodes := ids.filterMap fun id => classes[id.position]?
  let annotations := Ascending.find? name declarations.packageAnnotations
  { name
    classes := ids
    uses := Ascending.ofList (nodes.flatMap (·.usedPackages classes))
    analyzed := annotations.isSome || members.any (·.1.analyzed)
    annotations := annotations.getD []
    sizes := PackageSizes.ofMembers (members.map Prod.fst) }

/-- The model of a list of class records. -/
def Model.assemble (filter : PackageFilter) (records : List ClassRecord)
    (sources : List SourceRecord) : Model :=
  let declarations := Declarations.ofRecords filter records
  let classNames := declarations.classNames filter
  let packageNames := declarations.packageNames filter classNames
  let classes := (classNames.map
    (declarations.node filter classNames packageNames sources)).toArray
  { packages := (packageNames.zipIdx.map fun (name, i) =>
      Package.derive declarations classes name i).toArray
    classes }

end PackageAudit
