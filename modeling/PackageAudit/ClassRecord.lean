/-
Class records: what the model keeps of one class.

A record says what a class is called, how it is declared, and which other classes it
mentions, with the number of places that mention each.  `ofClassFile` reads the mentions
of a compiled class off its constants, descriptors, signatures and annotations.
-/
import PackageAudit.ClassFile.Basic
import PackageAudit.Signature

namespace PackageAudit

/-- What is known of one class.  `references` is an ascending table of the classes it mentions
with the number of mentions, `annotations` an ascending list of annotation types. -/
structure ClassRecord where
  name : String
  superClass : Option String := none
  interfaces : List String := []
  references : List (String × UInt32) := []
  annotations : List String := []
  sourceFile : Option String := none
  codeSize : UInt64 := 0
  totalSize : UInt64 := 0
  concrete : Bool := true
  kind : ClassKind := .topLevel
  deriving DecidableEq, Repr

namespace ClassRecord

/-- Adds `count` references to a class. -/
def withReference (record : ClassRecord) (target : String) (count : UInt32) : ClassRecord :=
  { record with references := Ascending.count target count record.references }

/-- The simple name of the class that carries the annotations of its package and no code. -/
def packageInfoName : String := "package-info"

/-- Whether the class only carries the annotations of its package. -/
def isPackageInfo (record : ClassRecord) : Bool :=
  record.name == packageInfoName || ('.' :: packageInfoName.toList).isSuffixOf record.name.toList

end ClassRecord

/-! ### Mentions in a compiled class -/

/-- The classes that a constant mentions.  Names and types that a constant refers to must be there. -/
def ConstantPool.mentions (pool : ConstantPool) : Constant → Except DecodeError (List String)
  | .classInfo nameIndex => do
    let name ← pool.utf8 nameIndex
    return (Descriptor.classConstantType? name).toList
  | .methodType descriptorIndex => do
    let descriptor ← pool.utf8 descriptorIndex
    return Descriptor.referencedTypes descriptor
  | constant =>
    match constant.memberNameAndType? with
    | some index => do
      let (_, descriptor) ← pool.nameAndType index
      return Descriptor.referencedTypes descriptor
    | none => return []

/-- The classes that a signature mentions, each once.  A malformed signature mentions none. -/
def Signature.mentions (kind : SignatureKind) (signature : Option String) : List String :=
  match signature with
  | none => []
  | some text =>
    match referencedClasses kind text with
    | .ok names => names
    | .error _ => []

/-- The classes that annotations mention. -/
def AnnotationUse.mentions (uses : List AnnotationUse) : List String :=
  (uses.flatMap (·.mentionedTypes)).flatMap Descriptor.referencedTypes

/-- The classes that a field or method mentions. -/
def Member.mentions (kind : SignatureKind) (member : Member) : List String :=
  Descriptor.referencedTypes member.descriptor ++ Signature.mentions kind member.signature
    ++ AnnotationUse.mentions member.annotations

/-- All mentions of classes in a compiled class, its own name included. -/
def ClassFile.mentions (file : ClassFile) : Except DecodeError (List String) := do
  let inPool ← file.constantPool.entries.mapM fun (_, constant) =>
    file.constantPool.mentions constant
  return inPool.flatten
    ++ Signature.mentions .classType file.signature
    ++ file.fields.flatMap (Member.mentions .field)
    ++ file.methods.flatMap (Member.mentions .method)
    ++ AnnotationUse.mentions file.annotations

/-- The record of a compiled class.  It fails only if a constant refers to a missing constant or
one of the wrong kind; the class itself is not among its references. -/
def ClassRecord.ofClassFile (file : ClassFile) : Except DecodeError ClassRecord := do
  let mentions ← file.mentions
  let others := mentions.filter (· ≠ file.thisClass)
  return {
    name := file.thisClass
    superClass := file.superClass
    interfaces := file.interfaces
    references := others.foldl (fun table name => Ascending.count name 1 table) []
    annotations := Ascending.ofList
      (file.annotations.filterMap fun use => Descriptor.objectType? use.typeDescriptor)
    sourceFile := file.sourceFile
    codeSize := file.codeSize
    totalSize := UInt64.ofNat file.size
    concrete := file.isConcrete
    kind := file.kind }

/-- The record of a class file given by its bytes. -/
def ClassRecord.ofBytes (data : List UInt8) : Except DecodeError ClassRecord := do
  ClassRecord.ofClassFile (← ClassFile.parse data)

end PackageAudit
