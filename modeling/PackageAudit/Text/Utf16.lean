/-
Text from UTF-16 code units.

A high surrogate followed by a low one makes one character.  A surrogate on its
own stands for nothing and becomes the replacement character.
-/
import PackageAudit.Text.Utf8

namespace PackageAudit.Text.Utf16

/-- The first unit of a surrogate pair. -/
def isHigh (unit : UInt16) : Bool := 0xD800 ≤ unit.toNat && unit.toNat < 0xDC00

/-- The second unit of a surrogate pair. -/
def isLow (unit : UInt16) : Bool := 0xDC00 ≤ unit.toNat && unit.toNat < 0xE000

/-- The character that a surrogate pair stands for. -/
def pairChar (high low : UInt16) : Char :=
  Char.ofNat (0x10000 + high.toNat % 1024 * 1024 + low.toNat % 1024)

/-- The characters of a unit sequence; each surrogate without its partner is replaced. -/
def decodeLossy : List UInt16 → List Char
  | [] => []
  | unit :: rest =>
    if isHigh unit then
      match rest with
      | [] => [replacement]
      | next :: rest₁ =>
        if isLow next then pairChar unit next :: decodeLossy rest₁
        else replacement :: decodeLossy (next :: rest₁)
    else if isLow unit then replacement :: decodeLossy rest
    else Char.ofNat unit.toNat :: decodeLossy rest

end PackageAudit.Text.Utf16
