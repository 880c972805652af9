/-
The layout of class files.

A layout is a class the way a file holds it: with slot numbers in place of names, with
attributes in the order they are written, and with whatever else an attribute holds.  It has
three readings.  `encode` writes it down, byte for byte.  `fits` says whether its counts and
lengths fit the fields they are written in and its annotations are not nested too deeply.  And
`file?` is the class that it stands for, if all slot numbers lead to constants of the kind that
is asked for there.

None of them is about reading.  A layout can be followed with the tables of the format in hand:
tags of constants, tags of annotation values, names of attributes, and what each of them holds.
-/
import PackageAudit.ClassFile.Basic

namespace PackageAudit.Layout

/-! ### Numbers and tables -/

/-- A number of two bytes, the greater one first. -/
def u16 (n : UInt16) : List UInt8 := [UInt8.ofNat (n.toNat / 256), UInt8.ofNat n.toNat]

/-- A number of four bytes. -/
def u32 (n : UInt32) : List UInt8 :=
  [UInt8.ofNat (n.toNat / 16777216), UInt8.ofNat (n.toNat / 65536), UInt8.ofNat (n.toNat / 256),
    UInt8.ofNat n.toNat]

/-- A number of eight bytes. -/
def u64 (n : UInt64) : List UInt8 :=
  u32 (UInt32.ofNat (n.toNat / 4294967296)) ++ u32 (UInt32.ofNat n.toNat)

/-- The greatest numbers of one, two and four bytes. -/
def max8 : Nat := 255
@[inherit_doc max8]
def max16 : Nat := 65535
@[inherit_doc max8]
def max32 : Nat := 4294967295

/-- The number of entries, and the entries. -/
def table {ι : Type} (entry : ι → List UInt8) (entries : List ι) : List UInt8 :=
  u16 (UInt16.ofNat entries.length) ++ entries.flatMap entry

end PackageAudit.Layout

namespace PackageAudit

open Layout

/-! ### Constants -/

/-- A constant with what its slot says of it.  A text is held as bytes. -/
inductive ConstantInfo where
  | utf8 (bytes : List UInt8)
  | integer (value : Int32)
  | float (bits : UInt32)
  | long (value : Int64)
  | double (bits : UInt64)
  | classInfo (nameIndex : UInt16)
  | string (stringIndex : UInt16)
  | fieldRef (classIndex nameAndTypeIndex : UInt16)
  | methodRef (classIndex nameAndTypeIndex : UInt16)
  | interfaceMethodRef (classIndex nameAndTypeIndex : UInt16)
  | nameAndType (nameIndex descriptorIndex : UInt16)
  | methodHandle (referenceKind : UInt8) (referenceIndex : UInt16)
  | methodType (descriptorIndex : UInt16)
  | dynamic (bootstrapIndex nameAndTypeIndex : UInt16)
  | invokeDynamic (bootstrapIndex nameAndTypeIndex : UInt16)
  | module (nameIndex : UInt16)
  | package (nameIndex : UInt16)
  deriving DecidableEq, Repr

namespace ConstantInfo

/-- The tag, and the fields that belong to it. -/
def encode : ConstantInfo → List UInt8
  | .utf8 bytes => 1 :: u16 (UInt16.ofNat bytes.length) ++ bytes
  | .integer value => 3 :: u32 value.toUInt32
  | .float bits => 4 :: u32 bits
  | .long value => 5 :: u64 value.toUInt64
  | .double bits => 6 :: u64 bits
  | .classInfo nameIndex => 7 :: u16 nameIndex
  | .string stringIndex => 8 :: u16 stringIndex
  | .fieldRef classIndex nameAndTypeIndex => 9 :: u16 classIndex ++ u16 nameAndTypeIndex
  | .methodRef classIndex nameAndTypeIndex => 10 :: u16 classIndex ++ u16 nameAndTypeIndex
  | .interfaceMethodRef classIndex nameAndTypeIndex =>
    11 :: u16 classIndex ++ u16 nameAndTypeIndex
  | .nameAndType nameIndex descriptorIndex => 12 :: u16 nameIndex ++ u16 descriptorIndex
  | .methodHandle referenceKind referenceIndex => 15 :: referenceKind :: u16 referenceIndex
  | .methodType descriptorIndex => 16 :: u16 descriptorIndex
  | .dynamic bootstrapIndex nameAndTypeIndex => 17 :: u16 bootstrapIndex ++ u16 nameAndTypeIndex
  | .invokeDynamic bootstrapIndex nameAndTypeIndex =>
    18 :: u16 bootstrapIndex ++ u16 nameAndTypeIndex
  | .module nameIndex => 19 :: u16 nameIndex
  | .package nameIndex => 20 :: u16 nameIndex

/-- The constant itself. -/
def constant : ConstantInfo → Constant
  | .utf8 bytes => .utf8 (ModifiedUtf8.decode bytes)
  | .integer value => .integer value
  | .float bits => .float bits
  | .long value => .long value
  | .double bits => .double bits
  | .classInfo nameIndex => .classInfo nameIndex
  | .string stringIndex => .string stringIndex
  | .fieldRef classIndex nameAndTypeIndex => .fieldRef classIndex nameAndTypeIndex
  | .methodRef classIndex nameAndTypeIndex => .methodRef classIndex nameAndTypeIndex
  | .interfaceMethodRef classIndex nameAndTypeIndex =>
    .interfaceMethodRef classIndex nameAndTypeIndex
  | .nameAndType nameIndex descriptorIndex => .nameAndType nameIndex descriptorIndex
  | .methodHandle referenceKind referenceIndex => .methodHandle referenceKind referenceIndex
  | .methodType descriptorIndex => .methodType descriptorIndex
  | .dynamic bootstrapIndex nameAndTypeIndex => .dynamic bootstrapIndex nameAndTypeIndex
  | .invokeDynamic bootstrapIndex nameAndTypeIndex =>
    .invokeDynamic bootstrapIndex nameAndTypeIndex
  | .module nameIndex => .module nameIndex
  | .package nameIndex => .package nameIndex

/-- The slots that a constant takes: numbers of 64 bits take two. -/
def slots (info : ConstantInfo) : List Constant :=
  match info with
  | .long _ | .double _ => [info.constant, .unusable]
  | _ => [info.constant]

/-- Whether two bytes can count the bytes of a text. -/
def fits : ConstantInfo → Bool
  | .utf8 bytes => bytes.length ≤ max16
  | _ => true

/-- A text, written in UTF-8. -/
def ofText (text : String) : ConstantInfo := .utf8 (Text.Utf8.encode text.toList)

end ConstantInfo

namespace Layout

/-- The slots of a list of constants.  Slot 0 holds none. -/
def pool (constants : List ConstantInfo) : ConstantPool :=
  ⟨(Constant.unusable :: constants.flatMap ConstantInfo.slots).toArray⟩

/-- The number of slots, and the constants. -/
def encodePool (constants : List ConstantInfo) : List UInt8 :=
  u16 (UInt16.ofNat (pool constants).slots.size) ++ constants.flatMap ConstantInfo.encode

/-- The text in a slot. -/
def textAt? (pool : ConstantPool) (index : UInt16) : Option String :=
  match pool.slots[index.toNat]? with
  | some (.utf8 text) => some text
  | _ => none

/-- The name of the class in a slot, with dots where the file has slashes. -/
def classAt? (pool : ConstantPool) (index : UInt16) : Option String :=
  match pool.slots[index.toNat]? with
  | some (.classInfo nameIndex) =>
    (textAt? pool nameIndex).map fun name =>
      String.ofList (name.toList.map fun c => if c = '/' then '.' else c)
  | _ => none

/-- What a slot number refers to that may be 0, which refers to nothing. -/
def unlessZero (resolve : UInt16 → Option String) (index : UInt16) : Option (Option String) :=
  if index = 0 then some none else (resolve index).map some

end Layout

/-! ### Annotations -/

/-- The kinds of constant that an annotation may have as a value. -/
inductive ConstTag where
  | byte | char | double | float | int | long | short | boolean | string
  deriving DecidableEq, Repr

/-- The letter that an annotation has in front of such a value. -/
def ConstTag.code : ConstTag → UInt8
  | .byte => 0x42
  | .char => 0x43
  | .double => 0x44
  | .float => 0x46
  | .int => 0x49
  | .long => 0x4A
  | .short => 0x53
  | .boolean => 0x5A
  | .string => 0x73

/-- The value of an annotation element. -/
inductive ElementInfo where
  | const (tag : ConstTag) (index : UInt16)
  | enum (typeIndex nameIndex : UInt16)
  | classLiteral (index : UInt16)
  | nested (typeIndex : UInt16) (elements : List (UInt16 × ElementInfo))
  | array (values : List ElementInfo)
  deriving Repr

namespace ElementInfo

mutual

/-- The bytes of a value: its letter, and what goes with it. -/
def encode : ElementInfo → List UInt8
  | .const tag index => tag.code :: u16 index
  | .enum typeIndex nameIndex => 0x65 :: u16 typeIndex ++ u16 nameIndex
  | .classLiteral index => 0x63 :: u16 index
  | .nested typeIndex elements =>
    0x40 :: u16 typeIndex ++ u16 (UInt16.ofNat elements.length) ++ encodeElements elements
  | .array values => 0x5B :: u16 (UInt16.ofNat values.length) ++ encodeValues values

/-- The bytes of elements, each behind the slot of its name. -/
def encodeElements : List (UInt16 × ElementInfo) → List UInt8
  | [] => []
  | (nameIndex, value) :: rest => u16 nameIndex ++ value.encode ++ encodeElements rest

/-- The bytes of the members of an array. -/
def encodeValues : List ElementInfo → List UInt8
  | [] => []
  | value :: rest => value.encode ++ encodeValues rest

end

mutual

/-- How many levels lie below a value: a member of an array lies one below the array, an
annotation one below the value that it is, and its elements one below it. -/
def height : ElementInfo → Nat
  | .nested _ elements => heightOfElements elements + 1
  | .array values => heightOfValues values
  | _ => 0

/-- How many levels elements take. -/
def heightOfElements : List (UInt16 × ElementInfo) → Nat
  | [] => 0
  | (_, value) :: rest => max (value.height + 1) (heightOfElements rest)

/-- How many levels the members of an array take. -/
def heightOfValues : List ElementInfo → Nat
  | [] => 0
  | value :: rest => max (value.height + 1) (heightOfValues rest)

end

mutual

/-- Whether two bytes can count the elements and members, on every level. -/
def fits : ElementInfo → Bool
  | .nested _ elements => elements.length ≤ max16 && fitElements elements
  | .array values => values.length ≤ max16 && fitValues values
  | _ => true

@[inherit_doc fits]
def fitElements : List (UInt16 × ElementInfo) → Bool
  | [] => true
  | (_, value) :: rest => value.fits && fitElements rest

@[inherit_doc fits]
def fitValues : List ElementInfo → Bool
  | [] => true
  | value :: rest => value.fits && fitValues rest

end

mutual

/-- The value that is meant, with the texts that its slot numbers refer to. -/
def value? (pool : ConstantPool) : ElementInfo → Option ElementValue
  | .const tag index => some (.const tag.code index)
  | .enum typeIndex nameIndex => do
    return .enum (← textAt? pool typeIndex) (← textAt? pool nameIndex)
  | .classLiteral index => do return .classLiteral (← textAt? pool index)
  | .nested typeIndex elements => do
    return .nested (← textAt? pool typeIndex) (← elements? pool elements)
  | .array values => do return .array (← values? pool values)

@[inherit_doc value?]
def elements? (pool : ConstantPool) :
    List (UInt16 × ElementInfo) → Option (List (String × ElementValue))
  | [] => some []
  | (nameIndex, value) :: rest => do
    let name ← textAt? pool nameIndex
    let value ← value.value? pool
    return (name, value) :: (← elements? pool rest)

@[inherit_doc value?]
def values? (pool : ConstantPool) : List ElementInfo → Option (List ElementValue)
  | [] => some []
  | value :: rest => do
    let value ← value.value? pool
    return value :: (← values? pool rest)

end

end ElementInfo

/-- An annotation with its elements. -/
structure AnnotationInfo where
  typeIndex : UInt16
  elements : List (UInt16 × ElementInfo)
  deriving Repr

namespace AnnotationInfo

/-- The bytes of an annotation: the slot of its type, and its elements. -/
def encode (info : AnnotationInfo) : List UInt8 :=
  u16 info.typeIndex
    ++ table (fun (nameIndex, value) => u16 nameIndex ++ value.encode) info.elements

/-- The counts fit, and no value lies deeper than the nesting limit. -/
def fits (info : AnnotationInfo) : Bool :=
  info.elements.length ≤ max16 && ElementInfo.fitElements info.elements
    && ElementInfo.heightOfElements info.elements ≤ 64

/-- The annotation that is meant. -/
def use? (pool : ConstantPool) (info : AnnotationInfo) : Option AnnotationUse := do
  return ⟨← textAt? pool info.typeIndex, ← ElementInfo.elements? pool info.elements⟩

end AnnotationInfo

/-- Whether a table of annotations fits. -/
def Layout.fitAnnotations (table : List AnnotationInfo) : Bool :=
  table.length ≤ max16 && table.all AnnotationInfo.fits

/-! ### Attributes -/

/-- How the attributes of one kind of thing are written: the names that a content goes with, its
bytes, whether its counts fit, and what it says. -/
structure AttributeFormat (Content Meaning : Type) where
  isNamed : Content → String → Bool
  encode : Content → List UInt8
  fits : Content → Bool
  meaning? : ConstantPool → Content → Option Meaning

/-- An attribute: the slot of its name, what is known of its body, and the bytes behind that.  Of an
attribute that is not known all bytes are such. -/
structure AttributeInfo (Content : Type) where
  nameIndex : UInt16
  content : Content
  extra : List UInt8
  deriving Repr

namespace AttributeInfo

variable {Content Meaning : Type} (info : AttributeInfo Content)
  (format : AttributeFormat Content Meaning)

/-- The bytes of the body: what is known of it, and what stands behind. -/
def body : List UInt8 := format.encode info.content ++ info.extra

/-- The bytes of an attribute: the slot of its name, the length of its body, and its body. -/
def encode : List UInt8 :=
  u16 info.nameIndex ++ u32 (UInt32.ofNat (info.body format).length) ++ info.body format

/-- Whether the counts fit, and four bytes can tell the length of the body. -/
def fits : Bool := format.fits info.content && (info.body format).length ≤ max32

/-- What the attribute says, if it is named for what it holds. -/
def meaning? (pool : ConstantPool) : Option Meaning := do
  let name ← textAt? pool info.nameIndex
  if format.isNamed info.content name then format.meaning? pool info.content else none

end AttributeInfo

/-- What is known of the attributes of fields and methods. -/
inductive MemberContent where
  | code (maxStack maxLocals : UInt16) (length : UInt32)
  | signature (index : UInt16)
  | annotations (uses : List AnnotationInfo)
  | parameterAnnotations (parameters : List (List AnnotationInfo))
  | unrecognised
  deriving Repr

namespace MemberContent

/-- The names of the attributes of fields and methods that are known. -/
def knownNames : List String :=
  ["Code", "Signature", "RuntimeVisibleAnnotations", "RuntimeInvisibleAnnotations",
    "RuntimeVisibleParameterAnnotations", "RuntimeInvisibleParameterAnnotations"]

/-- The names that each content goes with. -/
def isNamed : MemberContent → String → Bool
  | .code _ _ _, name => name == "Code"
  | .signature _, name => name == "Signature"
  | .annotations _, name =>
    ["RuntimeVisibleAnnotations", "RuntimeInvisibleAnnotations"].contains name
  | .parameterAnnotations _, name =>
    ["RuntimeVisibleParameterAnnotations", "RuntimeInvisibleParameterAnnotations"].contains name
  | .unrecognised, name => !knownNames.contains name

/-- The bytes of the part of a body that is known. -/
def encode : MemberContent → List UInt8
  | .code maxStack maxLocals length => u16 maxStack ++ u16 maxLocals ++ u32 length
  | .signature index => u16 index
  | .annotations uses => table AnnotationInfo.encode uses
  | .parameterAnnotations parameters =>
    UInt8.ofNat parameters.length :: parameters.flatMap (table AnnotationInfo.encode)
  | .unrecognised => []

/-- Whether the tables fit.  One byte counts the parameters of a method. -/
def fits : MemberContent → Bool
  | .annotations uses => fitAnnotations uses
  | .parameterAnnotations parameters =>
    parameters.length ≤ max8 && parameters.all fitAnnotations
  | _ => true

/-- What a body says.  The annotations of all parameters are those of the method. -/
def meaning? (pool : ConstantPool) : MemberContent → Option MemberAttribute
  | .code _ _ length => some (.code length)
  | .signature index => do return .signature (← textAt? pool index)
  | .annotations uses => do return .annotations (← uses.mapM (AnnotationInfo.use? pool))
  | .parameterAnnotations parameters => do
    let tables ← parameters.mapM fun uses => uses.mapM (AnnotationInfo.use? pool)
    return .annotations tables.flatten
  | .unrecognised => some .other

/-- How the attributes of fields and methods are written. -/
def format : AttributeFormat MemberContent MemberAttribute := { isNamed, encode, fits, meaning? }

end MemberContent

/-- An entry of the table of inner classes. -/
structure InnerClassInfo where
  innerIndex : UInt16
  outerIndex : UInt16
  nameIndex : UInt16
  accessFlags : UInt16
  deriving DecidableEq, Repr

namespace InnerClassInfo

/-- The bytes of an entry. -/
def encode (info : InnerClassInfo) : List UInt8 :=
  u16 info.innerIndex ++ u16 info.outerIndex ++ u16 info.nameIndex ++ u16 info.accessFlags

/-- The inner class that is meant.  It may have no outer class and no name. -/
def innerClass? (pool : ConstantPool) (info : InnerClassInfo) : Option InnerClass := do
  let inner ← classAt? pool info.innerIndex
  let outer ← unlessZero (classAt? pool) info.outerIndex
  let name ← unlessZero (textAt? pool) info.nameIndex
  return ⟨inner, outer, name, info.accessFlags⟩

end InnerClassInfo

/-- What is known of the attributes of classes. -/
inductive ClassContent where
  | signature (index : UInt16)
  | sourceFile (index : UInt16)
  | annotations (uses : List AnnotationInfo)
  | innerClasses (classes : List InnerClassInfo)
  | unrecognised
  deriving Repr

namespace ClassContent

/-- The names of the attributes of classes that are known. -/
def knownNames : List String :=
  ["Signature", "SourceFile", "RuntimeVisibleAnnotations", "RuntimeInvisibleAnnotations",
    "InnerClasses"]

/-- The names that each content goes with. -/
def isNamed : ClassContent → String → Bool
  | .signature _, name => name == "Signature"
  | .sourceFile _, name => name == "SourceFile"
  | .annotations _, name =>
    ["RuntimeVisibleAnnotations", "RuntimeInvisibleAnnotations"].contains name
  | .innerClasses _, name => name == "InnerClasses"
  | .unrecognised, name => !knownNames.contains name

/-- The bytes of the part of a body that is known. -/
def encode : ClassContent → List UInt8
  | .signature index => u16 index
  | .sourceFile index => u16 index
  | .annotations uses => table AnnotationInfo.encode uses
  | .innerClasses classes => table InnerClassInfo.encode classes
  | .unrecognised => []

/-- Whether the tables fit. -/
def fits : ClassContent → Bool
  | .annotations uses => fitAnnotations uses
  | .innerClasses classes => classes.length ≤ max16
  | _ => true

/-- What a body says. -/
def meaning? (pool : ConstantPool) : ClassContent → Option ClassAttribute
  | .signature index => do return .signature (← textAt? pool index)
  | .sourceFile index => do return .sourceFile (← textAt? pool index)
  | .annotations uses => do return .annotations (← uses.mapM (AnnotationInfo.use? pool))
  | .innerClasses classes => do
    return .innerClasses (← classes.mapM (InnerClassInfo.innerClass? pool))
  | .unrecognised => some .other

/-- How the attributes of classes are written. -/
def format : AttributeFormat ClassContent ClassAttribute := { isNamed, encode, fits, meaning? }

end ClassContent

/-! ### Members and classes -/

/-- A field or method. -/
structure MemberInfo where
  accessFlags : UInt16
  nameIndex : UInt16
  descriptorIndex : UInt16
  attributes : List (AttributeInfo MemberContent)
  deriving Repr

namespace MemberInfo

/-- The bytes of a field or method. -/
def encode (info : MemberInfo) : List UInt8 :=
  u16 info.accessFlags ++ u16 info.nameIndex ++ u16 info.descriptorIndex
    ++ table (·.encode MemberContent.format) info.attributes

/-- Whether the table of attributes and all that is in it fits. -/
def fits (info : MemberInfo) : Bool :=
  info.attributes.length ≤ max16 && info.attributes.all (·.fits MemberContent.format)

/-- The field or method that is meant.  Of several signatures or code lengths the last one counts,
and annotations add up. -/
def member? (pool : ConstantPool) (info : MemberInfo) : Option Member := do
  let name ← textAt? pool info.nameIndex
  let descriptor ← textAt? pool info.descriptorIndex
  let attributes ← info.attributes.mapM (·.meaning? MemberContent.format pool)
  return {
    accessFlags := info.accessFlags
    name, descriptor
    signature := (attributes.filterMap fun
      | .signature text => some text
      | _ => none).getLast?
    annotations := attributes.flatMap fun
      | .annotations uses => uses
      | _ => []
    codeLength := (attributes.filterMap fun
      | .code length => some length
      | _ => none).getLast? }

end MemberInfo

/-- A class. -/
structure ClassLayout where
  minorVersion : UInt16
  majorVersion : UInt16
  constants : List ConstantInfo
  accessFlags : UInt16
  thisIndex : UInt16
  superIndex : UInt16
  interfaces : List UInt16
  fields : List MemberInfo
  methods : List MemberInfo
  attributes : List (AttributeInfo ClassContent)
  deriving Repr

namespace ClassLayout

/-- The bytes of a class file. -/
def encode (layout : ClassLayout) : List UInt8 :=
  u32 0xCAFEBABE ++ u16 layout.minorVersion ++ u16 layout.majorVersion
    ++ encodePool layout.constants
    ++ u16 layout.accessFlags ++ u16 layout.thisIndex ++ u16 layout.superIndex
    ++ table u16 layout.interfaces
    ++ table MemberInfo.encode layout.fields
    ++ table MemberInfo.encode layout.methods
    ++ table (·.encode ClassContent.format) layout.attributes

/-- Whether all tables of a class file and all that is in them fits. -/
def fits (layout : ClassLayout) : Bool :=
  (pool layout.constants).slots.size ≤ max16 && layout.constants.all ConstantInfo.fits
    && layout.interfaces.length ≤ max16
    && (layout.fields.length ≤ max16 && layout.fields.all MemberInfo.fits)
    && (layout.methods.length ≤ max16 && layout.methods.all MemberInfo.fits)
    && (layout.attributes.length ≤ max16
      && layout.attributes.all (·.fits ClassContent.format))

/-- The class that is meant.  Of several attributes of one name the last one counts, and annotations
add up. -/
def file? (layout : ClassLayout) : Option ClassFile := do
  let constantPool := pool layout.constants
  let thisClass ← classAt? constantPool layout.thisIndex
  let superClass ← unlessZero (classAt? constantPool) layout.superIndex
  let interfaces ← layout.interfaces.mapM (classAt? constantPool)
  let fields ← layout.fields.mapM (MemberInfo.member? constantPool)
  let methods ← layout.methods.mapM (MemberInfo.member? constantPool)
  let attributes ← layout.attributes.mapM (·.meaning? ClassContent.format constantPool)
  return {
    minorVersion := layout.minorVersion
    majorVersion := layout.majorVersion
    constantPool
    accessFlags := layout.accessFlags
    thisClass, superClass, interfaces, fields, methods
    signature := (attributes.filterMap fun
      | .signature text => some text
      | _ => none).getLast?
    sourceFile := (attributes.filterMap fun
      | .sourceFile name => some name
      | _ => none).getLast?
    annotations := attributes.flatMap fun
      | .annotations uses => uses
      | _ => []
    innerClasses := ((attributes.filterMap fun
      | .innerClasses classes => some classes
      | _ => none).getLast?).getD []
    size := layout.encode.length }

end ClassLayout

end PackageAudit
