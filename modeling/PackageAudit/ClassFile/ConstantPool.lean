/-
The constant pool of a class file.

Constants stand in numbered slots.  Slot 0 holds none, and a `long` or `double` takes
two slots, the second of which holds none either.  The declared count is that of the
slots, slot 0 included; a wide constant in the last declared slot still brings its
second slot with it.
-/
import PackageAudit.ClassFile.Decoder
import PackageAudit.ClassFile.ModifiedUtf8

namespace PackageAudit

/-- One slot of a constant pool.  Indices refer to other slots of the same pool; floating-point
constants are kept as their bit patterns. -/
inductive Constant where
  | utf8 (text : String)
  | integer (value : Int32)
  | float (bits : UInt32)
  | long (value : Int64)
  | double (bits : UInt64)
  | classInfo (nameIndex : UInt16)
  | string (stringIndex : UInt16)
  | fieldRef (classIndex nameAndTypeIndex : UInt16)
  | methodRef (classIndex nameAndTypeIndex : UInt16)
  | interfaceMethodRef (classIndex nameAndTypeIndex : UInt16)
  | nameAndType (nameIndex descriptorIndex : UInt16)
  | methodHandle (referenceKind : UInt8) (referenceIndex : UInt16)
  | methodType (descriptorIndex : UInt16)
  | dynamic (bootstrapIndex nameAndTypeIndex : UInt16)
  | invokeDynamic (bootstrapIndex nameAndTypeIndex : UInt16)
  | module (nameIndex : UInt16)
  | package (nameIndex : UInt16)
  /-- A slot without a constant: slot 0, and the second slot of a wide constant. -/
  | unusable
  deriving DecidableEq, Repr

namespace Constant

/-- A constant that takes two slots. -/
def isWide : Constant → Bool
  | .long _ | .double _ => true
  | _ => false

/-- Whether the slot holds a constant at all. -/
def isUsable : Constant → Bool
  | .unusable => false
  | _ => true

/-- The name-and-type slot of a reference to a field or method. -/
def memberNameAndType? : Constant → Option UInt16
  | .fieldRef _ index | .methodRef _ index | .interfaceMethodRef _ index => some index
  | _ => none

/-- Reads the constant of the slot `index`: a tag, and the fields that belong to it. -/
def decode (index : Nat) : Decoder Constant := do
  let tag ← Decoder.u8
  match tag.toNat with
  | 1 => do
    let length ← Decoder.u16
    return .utf8 (ModifiedUtf8.decode (← Decoder.bytes length.toNat))
  | 3 => return .integer (← Decoder.u32).toInt32
  | 4 => return .float (← Decoder.u32)
  | 5 => return .long (← Decoder.u64).toInt64
  | 6 => return .double (← Decoder.u64)
  | 7 => return .classInfo (← Decoder.u16)
  | 8 => return .string (← Decoder.u16)
  | 9 => do
    let classIndex ← Decoder.u16
    return .fieldRef classIndex (← Decoder.u16)
  | 10 => do
    let classIndex ← Decoder.u16
    return .methodRef classIndex (← Decoder.u16)
  | 11 => do
    let classIndex ← Decoder.u16
    return .interfaceMethodRef classIndex (← Decoder.u16)
  | 12 => do
    let nameIndex ← Decoder.u16
    return .nameAndType nameIndex (← Decoder.u16)
  | 15 => do
    let kind ← Decoder.u8
    return .methodHandle kind (← Decoder.u16)
  | 16 => return .methodType (← Decoder.u16)
  | 17 => do
    let bootstrapIndex ← Decoder.u16
    return .dynamic bootstrapIndex (← Decoder.u16)
  | 18 => do
    let bootstrapIndex ← Decoder.u16
    return .invokeDynamic bootstrapIndex (← Decoder.u16)
  | 19 => return .module (← Decoder.u16)
  | 20 => return .package (← Decoder.u16)
  | _ => throw (.unknownConstantTag tag index)

end Constant

/-- The constants of a class file by slot. -/
structure ConstantPool where
  slots : Array Constant
  deriving DecidableEq, Repr

namespace ConstantPool

/-- Reads the constants of the next `left` slots, the first of which is the slot `index`. -/
def decodeSlots : (left index : Nat) → Decoder (List Constant)
  | 0, _ => return []
  | left + 1, index => do
    let constant ← Constant.decode index
    if constant.isWide then
      match left with
      | 0 => return [constant, .unusable]
      | left + 1 =>
        let others ← decodeSlots left (index + 2)
        return constant :: .unusable :: others
    else
      let others ← decodeSlots left (index + 1)
      return constant :: others

/-- Reads a constant pool: the number of slots, and the constants from slot 1 on. -/
def decode : Decoder ConstantPool := do
  let count ← Decoder.u16
  let constants ← decodeSlots (count.toNat - 1) 1
  return ⟨(Constant.unusable :: constants).toArray⟩

/-- The number of slots, slot 0 included. -/
def size (pool : ConstantPool) : Nat := pool.slots.size

/-- Whether the pool holds no slot beside slot 0. -/
def isEmpty (pool : ConstantPool) : Bool := pool.size ≤ 1

/-- What the slot `index` holds, if there is such a slot. -/
def get? (pool : ConstantPool) (index : UInt16) : Option Constant :=
  pool.slots[index.toNat]?

/-- The usable slots with their numbers, in order. -/
def entries (pool : ConstantPool) : List (Nat × Constant) :=
  (pool.slots.toList.zipIdx.filter (·.1.isUsable)).map fun (constant, index) => (index, constant)

/-- The text constant in a slot. -/
def utf8 (pool : ConstantPool) (index : UInt16) : Except DecodeError String :=
  match pool.get? index with
  | some (.utf8 text) => .ok text
  | _ => .error (.badConstantIndex index .utf8)

/-- The name of the class constant in a slot, as it is written there (`java/lang/String`). -/
def className (pool : ConstantPool) (index : UInt16) : Except DecodeError String :=
  match pool.get? index with
  | some (.classInfo nameIndex) => pool.utf8 nameIndex
  | _ => .error (.badConstantIndex index .classInfo)

/-- Name and descriptor of the name-and-type constant in a slot. -/
def nameAndType (pool : ConstantPool) (index : UInt16) : Except DecodeError (String × String) :=
  match pool.get? index with
  | some (.nameAndType nameIndex descriptorIndex) => do
    let name ← pool.utf8 nameIndex
    let descriptor ← pool.utf8 descriptorIndex
    return (name, descriptor)
  | _ => .error (.badConstantIndex index .nameAndType)

/-- Reads a slot number and looks up the text there. -/
def decodeUtf8 (pool : ConstantPool) : Decoder String := do
  let index ← Decoder.u16
  Decoder.lift (pool.utf8 index)

end ConstantPool

end PackageAudit
