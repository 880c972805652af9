/-
Compiled classes.

Of a class file this keeps what dependencies can be read from: the constant pool, the
header, the members with their descriptors, and the attributes that hold signatures,
annotations, code lengths, the name of the source file and the table of inner classes.
All other attributes are passed over by their length.  Class names are binary names
(`java.util.Map$Entry`); descriptors and signatures are kept as they are written.
-/
import PackageAudit.ClassFile.Annotations
import PackageAudit.Descriptor

namespace PackageAudit

/-- How a class is declared with respect to other classes. -/
inductive ClassKind where
  | topLevel
  /-- A member of another class. -/
  | nested
  /-- A named class inside a method body. -/
  | local
  | anonymous
  deriving DecidableEq, Repr

/-- The name of a class kind in reports. -/
def ClassKind.name : ClassKind → String
  | .topLevel => "top-level"
  | .nested => "nested"
  | .local => "local"
  | .anonymous => "anonymous"

/-- A field or method.  The annotations of a method include those of its parameters; only a
method with code has a code length. -/
structure Member where
  accessFlags : UInt16
  name : String
  descriptor : String
  signature : Option String
  annotations : List AnnotationUse
  codeLength : Option UInt32
  deriving BEq, Repr

/-- An entry of the table of inner classes.  Local and anonymous classes have no outer class,
and anonymous classes have no name. -/
structure InnerClass where
  inner : String
  outer : Option String
  name : Option String
  accessFlags : UInt16
  deriving DecidableEq, Repr

/-- A decoded class.  `size` is the length of the input in bytes. -/
structure ClassFile where
  minorVersion : UInt16
  majorVersion : UInt16
  constantPool : ConstantPool
  accessFlags : UInt16
  thisClass : String
  superClass : Option String
  interfaces : List String
  fields : List Member
  methods : List Member
  signature : Option String
  sourceFile : Option String
  annotations : List AnnotationUse
  innerClasses : List InnerClass
  size : Nat
  deriving BEq, Repr

/-- Reads a slot number and looks up the binary name of the class there. -/
def ConstantPool.decodeClassName (pool : ConstantPool) : Decoder String := do
  let index ← Decoder.u16
  let name ← Decoder.lift (pool.className index)
  return Descriptor.binaryName name.toList

/-- The class in a slot, where slot number 0 stands for no class. -/
def ConstantPool.optionalClassName (pool : ConstantPool) (index : UInt16) :
    Except DecodeError (Option String) :=
  if index = 0 then .ok none
  else do
    let name ← pool.className index
    return some (Descriptor.binaryName name.toList)

/-- The text in a slot, where slot number 0 stands for no text. -/
def ConstantPool.optionalUtf8 (pool : ConstantPool) (index : UInt16) :
    Except DecodeError (Option String) :=
  if index = 0 then .ok none
  else do
    let text ← pool.utf8 index
    return some text

/-- The last value that a function finds in a list. -/
def lastSome {α β : Type} (f : α → Option β) (items : List α) : Option β :=
  items.reverse.findSome? f

/-! ### Attributes -/

/-- Reads an attribute as it stands: its name, and the bytes of its body. -/
def ConstantPool.decodeAttribute (pool : ConstantPool) : Decoder (String × List UInt8) := do
  let name ← pool.decodeUtf8
  let length ← Decoder.u32
  let body ← Decoder.bytes length.toNat
  return (name, body)

/-- What an attribute says about a field or method. -/
inductive MemberAttribute where
  | code (length : UInt32)
  | signature (text : String)
  | annotations (table : List AnnotationUse)
  /-- An attribute that is passed over. -/
  | other
  deriving BEq, Repr

namespace MemberAttribute

/-- Interprets the body of an attribute by the attribute's name.  Bytes behind what is read
of the body are passed over. -/
def ofBody (pool : ConstantPool) (name : String) (body : List UInt8) :
    Except DecodeError MemberAttribute :=
  if name = "Code" then
    Decoder.runOn (do Decoder.skip 4; return .code (← Decoder.u32)) body
  else if name = "Signature" then
    Decoder.runOn (do return .signature (← pool.decodeUtf8)) body
  else if name = "RuntimeVisibleAnnotations" || name = "RuntimeInvisibleAnnotations" then
    Decoder.runOn (do return .annotations (← AnnotationUse.decodeTable pool)) body
  else if name = "RuntimeVisibleParameterAnnotations"
      || name = "RuntimeInvisibleParameterAnnotations" then
    Decoder.runOn (do return .annotations (← AnnotationUse.decodeParameterTables pool)) body
  else .ok .other

/-- Reads an attribute of a field or method. -/
def decode (pool : ConstantPool) : Decoder MemberAttribute := do
  let (name, body) ← pool.decodeAttribute
  Decoder.lift (ofBody pool name body)

/-- The code length, if the attribute gives one. -/
def codeLength? : MemberAttribute → Option UInt32
  | .code length => some length
  | _ => none

/-- The signature, if the attribute gives one. -/
def signature? : MemberAttribute → Option String
  | .signature text => some text
  | _ => none

/-- The annotations that the attribute adds. -/
def annotationTable : MemberAttribute → List AnnotationUse
  | .annotations table => table
  | _ => []

end MemberAttribute

/-- What an attribute says about a class. -/
inductive ClassAttribute where
  | signature (text : String)
  | sourceFile (name : String)
  | annotations (table : List AnnotationUse)
  | innerClasses (table : List InnerClass)
  /-- An attribute that is passed over. -/
  | other
  deriving BEq, Repr

/-- Reads an entry of the table of inner classes. -/
def InnerClass.decode (pool : ConstantPool) : Decoder InnerClass := do
  let inner ← pool.decodeClassName
  let outerIndex ← Decoder.u16
  let nameIndex ← Decoder.u16
  let accessFlags ← Decoder.u16
  let outer ← Decoder.lift (pool.optionalClassName outerIndex)
  let name ← Decoder.lift (pool.optionalUtf8 nameIndex)
  return ⟨inner, outer, name, accessFlags⟩

namespace ClassAttribute

/-- Interprets the body of an attribute by the attribute's name.  Bytes behind what is read
of the body are passed over. -/
def ofBody (pool : ConstantPool) (name : String) (body : List UInt8) :
    Except DecodeError ClassAttribute :=
  if name = "Signature" then
    Decoder.runOn (do return .signature (← pool.decodeUtf8)) body
  else if name = "SourceFile" then
    Decoder.runOn (do return .sourceFile (← pool.decodeUtf8)) body
  else if name = "RuntimeVisibleAnnotations" || name = "RuntimeInvisibleAnnotations" then
    Decoder.runOn (do return .annotations (← AnnotationUse.decodeTable pool)) body
  else if name = "InnerClasses" then
    Decoder.runOn (do return .innerClasses (← Decoder.counted (InnerClass.decode pool))) body
  else .ok .other

/-- Reads an attribute of a class. -/
def decode (pool : ConstantPool) : Decoder ClassAttribute := do
  let (name, body) ← pool.decodeAttribute
  Decoder.lift (ofBody pool name body)

/-- The signature, if the attribute gives one. -/
def signature? : ClassAttribute → Option String
  | .signature text => some text
  | _ => none

/-- The name of the source file, if the attribute gives one. -/
def sourceFile? : ClassAttribute → Option String
  | .sourceFile name => some name
  | _ => none

/-- The table of inner classes, if the attribute gives one. -/
def innerClasses? : ClassAttribute → Option (List InnerClass)
  | .innerClasses table => some table
  | _ => none

/-- The annotations that the attribute adds. -/
def annotationTable : ClassAttribute → List AnnotationUse
  | .annotations table => table
  | _ => []

end ClassAttribute

/-! ### Members and classes -/

/-- Reads a field or method.  Of several attributes of one name the last one counts, but
annotations add up. -/
def Member.decode (pool : ConstantPool) : Decoder Member := do
  let accessFlags ← Decoder.u16
  let name ← pool.decodeUtf8
  let descriptor ← pool.decodeUtf8
  let attributes ← Decoder.counted (MemberAttribute.decode pool)
  return {
    accessFlags, name, descriptor
    signature := lastSome MemberAttribute.signature? attributes
    annotations := attributes.flatMap MemberAttribute.annotationTable
    codeLength := lastSome MemberAttribute.codeLength? attributes }

namespace ClassFile

/-- The first four bytes of every class file. -/
def magic : UInt32 := 0xCAFEBABE

/-- The flags of interfaces and of abstract classes. -/
def abstractFlags : UInt16 := 0x0600

/-- Reads a class, which is said to be `size` bytes long. -/
def decode (size : Nat) : Decoder ClassFile := do
  let found ← Decoder.u32
  if found ≠ magic then
    throw (.badMagic found)
  let minorVersion ← Decoder.u16
  let majorVersion ← Decoder.u16
  let constantPool ← ConstantPool.decode
  let accessFlags ← Decoder.u16
  let thisClass ← constantPool.decodeClassName
  let superIndex ← Decoder.u16
  let superClass ← Decoder.lift (constantPool.optionalClassName superIndex)
  let interfaces ← Decoder.counted constantPool.decodeClassName
  let fields ← Decoder.counted (Member.decode constantPool)
  let methods ← Decoder.counted (Member.decode constantPool)
  let attributes ← Decoder.counted (ClassAttribute.decode constantPool)
  return {
    minorVersion, majorVersion, constantPool, accessFlags, thisClass, superClass
    interfaces, fields, methods, size
    signature := lastSome ClassAttribute.signature? attributes
    sourceFile := lastSome ClassAttribute.sourceFile? attributes
    annotations := attributes.flatMap ClassAttribute.annotationTable
    innerClasses := (lastSome ClassAttribute.innerClasses? attributes).getD [] }

/-- Decodes a class file.  Bytes behind the class are passed over. -/
def parse (data : List UInt8) : Except DecodeError ClassFile :=
  Decoder.runOn (decode data.length) data

/-- Whether the class is neither abstract nor an interface. -/
def isConcrete (file : ClassFile) : Bool :=
  file.accessFlags &&& abstractFlags == 0

/-- How the class is declared, by its own entry in its table of inner classes. -/
def kind (file : ClassFile) : ClassKind :=
  match file.innerClasses.find? (·.inner == file.thisClass) with
  | none => .topLevel
  | some entry =>
    match entry.name, entry.outer with
    | none, _ => .anonymous
    | some _, none => .local
    | some _, some _ => .nested

/-- The sum of the code lengths of all methods. -/
def codeSize (file : ClassFile) : UInt64 :=
  (file.methods.filterMap (·.codeLength)).foldl (fun total length => total + length.toUInt64) 0

end ClassFile

end PackageAudit
