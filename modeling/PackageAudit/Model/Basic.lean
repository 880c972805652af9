/-
Models: packages, classes, and which of them use which.

The tables of a model are in the order of the names, and a package or class is referred to
by its position there.  Positions are 32-bit numbers, so that one beyond their range
would be cut down to the greatest; a model that was built from files has none.
-/
import PackageAudit.ClassRecord
import PackageAudit.Source.LineCounts

namespace PackageAudit

/-- The greatest 32-bit position. -/
def greatestPosition : Nat := 4294967295

/-- Refers to a package of a model. -/
structure PackageId where
  index : UInt32
  deriving DecidableEq, Repr

/-- Refers to a class of a model. -/
structure ClassId where
  index : UInt32
  deriving DecidableEq, Repr

namespace PackageId

/-- The package at a position of the table. -/
def ofPosition (n : Nat) : PackageId := ⟨UInt32.ofNat (Nat.min n greatestPosition)⟩

/-- The position that is referred to. -/
def position (id : PackageId) : Nat := id.index.toNat

instance : Ord PackageId := ⟨compareOn PackageId.index⟩

end PackageId

namespace ClassId

/-- The class at a position of the table. -/
def ofPosition (n : Nat) : ClassId := ⟨UInt32.ofNat (Nat.min n greatestPosition)⟩

/-- The position that is referred to. -/
def position (id : ClassId) : Nat := id.index.toNat

instance : Ord ClassId := ⟨compareOn ClassId.index⟩

end ClassId

/-- Sizes of the classes of a package that were analyzed.  Lines are counted for the source files
that belong to the classes, each file name once. -/
structure PackageSizes where
  classes : Nat := 0
  codeSize : UInt64 := 0
  totalSize : UInt64 := 0
  lines : Option LineCounts := none
  deriving DecidableEq, Repr

/-- A package of a model.  `classes` and `uses` are ascending; a package does not use itself. -/
structure Package where
  name : String
  classes : List ClassId
  uses : List PackageId
  analyzed : Bool
  annotations : List String
  sizes : PackageSizes
  deriving DecidableEq, Repr

/-- A class of a model.  A class that is only mentioned and was not analyzed uses nothing.
`uses` is an ascending table with the numbers of mentions, none of which is zero. -/
structure ClassNode where
  name : String
  package : PackageId
  analyzed : Bool
  codeSize : UInt64
  totalSize : UInt64
  concrete : Bool
  kind : ClassKind
  sourceFile : Option String
  source : Option LineCounts
  annotations : List String
  superClass : Option String
  interfaces : List String
  uses : List (ClassId × UInt32)
  deriving DecidableEq, Repr

/-- The packages and classes, each in the order of their names. -/
structure Model where
  packages : Array Package
  classes : Array ClassNode
  deriving DecidableEq, Repr

/-- The line counts of a source file, with the directory and the name of the file. -/
structure SourceRecord where
  directory : String
  fileName : String
  counts : LineCounts
  deriving DecidableEq, Repr

namespace Model

/-- The package that is referred to. -/
def package? (model : Model) (id : PackageId) : Option Package :=
  model.packages[id.position]?

/-- The class that is referred to. -/
def class? (model : Model) (id : ClassId) : Option ClassNode :=
  model.classes[id.position]?

/-- The package of a given name. -/
def packageId? (model : Model) (name : String) : Option PackageId :=
  (model.packages.toList.findIdx? (·.name == name)).map PackageId.ofPosition

/-- The class of a given name. -/
def classId? (model : Model) (name : String) : Option ClassId :=
  (model.classes.toList.findIdx? (·.name == name)).map ClassId.ofPosition

/-- The name of a package. -/
def packageName (model : Model) (id : PackageId) : String :=
  ((model.package? id).map (·.name)).getD ""

/-- The name of a class. -/
def className (model : Model) (id : ClassId) : String :=
  ((model.class? id).map (·.name)).getD ""

/-- All packages with their ids. -/
def packageList (model : Model) : List (PackageId × Package) :=
  model.packages.toList.zipIdx.map fun (package, i) => (PackageId.ofPosition i, package)

/-- All classes with their ids. -/
def classList (model : Model) : List (ClassId × ClassNode) :=
  model.classes.toList.zipIdx.map fun (node, i) => (ClassId.ofPosition i, node)

/-- The packages that were analyzed. -/
def ownPackages (model : Model) : List Package :=
  model.packages.toList.filter (·.analyzed)

/-- The packages that a package uses. -/
def uses (model : Model) (id : PackageId) : List PackageId :=
  ((model.package? id).map (·.uses)).getD []

/-- Whether a class belongs to a package. -/
def belongsTo (model : Model) (id : ClassId) (package : PackageId) : Bool :=
  (model.class? id).map (·.package) == some package

/-- The classes of one package that use a class of another, by name. -/
def vias (model : Model) (source target : PackageId) : List ClassId :=
  (((model.package? source).map (·.classes)).getD []).filter fun id =>
    (((model.class? id).map (·.uses)).getD []).any fun (used, _) => model.belongsTo used target

/-- The names of the classes of one package that use a class of another. -/
def viaNames (model : Model) (source target : PackageId) : List String :=
  (model.vias source target).map model.className

end Model

/-- What a report says of a package. -/
structure PackageSummary where
  name : String
  analyzed : Bool
  sizes : PackageSizes
  uses : List String
  deriving DecidableEq, Repr

/-- One summary for each package, by name. -/
def Model.summaries (model : Model) : List PackageSummary :=
  model.packages.toList.map fun package =>
    ⟨package.name, package.analyzed, package.sizes, package.uses.map model.packageName⟩

end PackageAudit
