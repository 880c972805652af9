/-
Annotations in class files.

An annotation names its type and gives values to some of its elements; a value may be
an annotation or an array again.  Reading goes down at most `maxDepth` levels: the
outermost annotation is at depth 0, and each element value, array member and nested
annotation lies one level below what holds it.
-/
import PackageAudit.ClassFile.ConstantPool

namespace PackageAudit

/-- The value of an annotation element. -/
inductive ElementValue where
  /-- A primitive or text constant: its tag, and the slot that holds the value. -/
  | const (tag : UInt8) (index : UInt16)
  /-- A constant of an enumeration. -/
  | enum (typeDescriptor constName : String)
  /-- A class literal, as a descriptor. -/
  | classLiteral (descriptor : String)
  /-- A nested annotation: its type, and its elements with their names. -/
  | nested (typeDescriptor : String) (elements : List (String × ElementValue))
  /-- An array of values. -/
  | array (values : List ElementValue)
  deriving BEq, Repr

/-- An annotation: the descriptor of its type, and its elements in the order they are written. -/
structure AnnotationUse where
  typeDescriptor : String
  elements : List (String × ElementValue)
  deriving BEq, Repr

mutual

/-- The descriptors of all types that a value mentions, in the order they are written. -/
def ElementValue.mentionedTypes : ElementValue → List String
  | .const _ _ => []
  | .enum typeDescriptor _ => [typeDescriptor]
  | .classLiteral descriptor => [descriptor]
  | .nested typeDescriptor elements => typeDescriptor :: mentionedTypesOfElements elements
  | .array values => mentionedTypesOfValues values

/-- The types that named elements mention. -/
def ElementValue.mentionedTypesOfElements : List (String × ElementValue) → List String
  | [] => []
  | (_, value) :: rest => value.mentionedTypes ++ mentionedTypesOfElements rest

/-- The types that the members of an array mention. -/
def ElementValue.mentionedTypesOfValues : List ElementValue → List String
  | [] => []
  | value :: rest => value.mentionedTypes ++ mentionedTypesOfValues rest

end

/-- The descriptors of all types that an annotation mentions: its own type first, then the types
of its values. -/
def AnnotationUse.mentionedTypes (use : AnnotationUse) : List String :=
  use.typeDescriptor :: ElementValue.mentionedTypesOfElements use.elements

namespace AnnotationUse

/-- How deep values may lie below the outermost annotation. -/
def maxDepth : Nat := 64

/-- The tags of constant values: `B C D F I J S Z s`. -/
def constTags : List Nat := [0x42, 0x43, 0x44, 0x46, 0x49, 0x4A, 0x53, 0x5A, 0x73]

mutual

/-- Reads an annotation when `levels` levels are left, its own included. -/
def decodeWithin (pool : ConstantPool) : (levels : Nat) → Decoder AnnotationUse
  | 0 => throw .nestingTooDeep
  | levels + 1 => do
    let typeDescriptor ← pool.decodeUtf8
    let elements ← Decoder.counted do
      let name ← pool.decodeUtf8
      let value ← decodeValueWithin pool levels
      return (name, value)
    return ⟨typeDescriptor, elements⟩

/-- Reads an element value when `levels` levels are left, its own included. -/
def decodeValueWithin (pool : ConstantPool) : (levels : Nat) → Decoder ElementValue
  | 0 => throw .nestingTooDeep
  | levels + 1 => do
    let tag ← Decoder.u8
    if constTags.contains tag.toNat then
      return .const tag (← Decoder.u16)
    else match tag.toNat with
      | 0x65 => do  -- 'e', an enumeration constant
        let typeDescriptor ← pool.decodeUtf8
        return .enum typeDescriptor (← pool.decodeUtf8)
      | 0x63 => return .classLiteral (← pool.decodeUtf8)  -- 'c', a class literal
      | 0x40 => do  -- '@', an annotation
        let inner ← decodeWithin pool levels
        return .nested inner.typeDescriptor inner.elements
      | 0x5B => return .array (← Decoder.counted (decodeValueWithin pool levels))  -- '[', an array
      | _ => throw (.unknownElementTag tag)

end

/-- Reads an outermost annotation. -/
def decode (pool : ConstantPool) : Decoder AnnotationUse :=
  decodeWithin pool (maxDepth + 1)

/-- Reads a table of annotations. -/
def decodeTable (pool : ConstantPool) : Decoder (List AnnotationUse) :=
  Decoder.counted (decode pool)

/-- Reads one table of annotations for each parameter of a method, all in one list. -/
def decodeParameterTables (pool : ConstantPool) : Decoder (List AnnotationUse) := do
  let parameters ← Decoder.u8
  let tables ← Decoder.times (decodeTable pool) parameters.toNat
  return tables.flatten

end AnnotationUse

end PackageAudit
