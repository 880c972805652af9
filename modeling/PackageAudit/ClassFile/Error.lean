/-
Why a byte sequence is not a class file.

An error ends the decoding of the class at hand.  Whoever reads many classes records
it and goes on with the next one.
-/
import PackageAudit.Text.Digits

namespace PackageAudit

/-- The kinds of constant that a reference may ask for. -/
inductive ConstantKind where
  | utf8
  | classInfo
  | nameAndType
  deriving DecidableEq, Repr

/-- The name of a constant kind in messages. -/
def ConstantKind.name : ConstantKind → String
  | .utf8 => "Utf8"
  | .classInfo => "Class"
  | .nameAndType => "NameAndType"

/-- Why a class file could not be decoded. -/
inductive DecodeError where
  /-- The first four bytes are not the magic number. -/
  | badMagic (found : UInt32)
  /-- The input ended before `needed` bytes could be read at `offset`.  Offsets count from
  the start of the structure that is read: the file, or the body of one attribute. -/
  | truncated (offset needed : Nat)
  /-- A constant with an unknown tag in the slot `index`. -/
  | unknownConstantTag (tag : UInt8) (index : Nat)
  /-- The slot `index` is missing or holds no constant of the expected kind. -/
  | badConstantIndex (index : UInt16) (expected : ConstantKind)
  /-- An annotation value with an unknown tag. -/
  | unknownElementTag (tag : UInt8)
  /-- Annotation values that lie deeper than the nesting limit. -/
  | nestingTooDeep
  deriving DecidableEq, Repr

/-- The message that reports a decoding error. -/
def DecodeError.message : DecodeError → String
  | .badMagic found => "not a class file (magic 0x" ++ Text.hexUpper 8 found.toNat ++ ")"
  | .truncated offset needed =>
    "truncated class file: needed " ++ Text.decimal needed ++ " bytes at offset "
      ++ Text.decimal offset
  | .unknownConstantTag tag index =>
    "unknown constant pool tag " ++ Text.decimal tag.toNat ++ " at index " ++ Text.decimal index
  | .badConstantIndex index expected =>
    "constant pool index " ++ Text.decimal index.toNat ++ " is not a " ++ expected.name ++ " entry"
  | .unknownElementTag tag =>
    "unknown annotation element tag '" ++ String.singleton (Char.ofNat tag.toNat) ++ "'"
  | .nestingTooDeep => "annotation values nested too deeply"

end PackageAudit
