/-
The text encoding of class-file constants.

Constants hold UTF-16 code units, each unit written in one to three bytes: unit 0
in two bytes and every surrogate on its own in three.  Most constants are plain
UTF-8 all the same, and text that is plain UTF-8 is taken as it stands.  Other
byte sequences are read unit by unit; a byte that starts no unit becomes U+FFFD.
-/
import PackageAudit.Text.Utf16

namespace PackageAudit.ModifiedUtf8

open Text

/-- The unit that stands for a byte that cannot be read. -/
def malformedUnit : UInt16 := 0xFFFD

/-- The code units of a byte sequence.  A malformed byte is replaced on its own and
reading goes on with the byte after it. -/
def units : List UInt8 → List UInt16
  | [] => []
  | b :: rest =>
    if b.toNat < 0x80 then UInt16.ofNat b.toNat :: units rest
    else if 0xC0 ≤ b.toNat && b.toNat < 0xE0 then
      match rest with
      | [] => [malformedUnit]
      | c :: rest₁ =>
        if Utf8.isContinuation c then
          UInt16.ofNat (b.toNat % 32 * 64 + c.toNat % 64) :: units rest₁
        else malformedUnit :: units (c :: rest₁)
    else if 0xE0 ≤ b.toNat && b.toNat < 0xF0 then
      match rest with
      | c :: d :: rest₂ =>
        if Utf8.isContinuation c && Utf8.isContinuation d then
          UInt16.ofNat (b.toNat % 16 * 4096 + c.toNat % 64 * 64 + d.toNat % 64) :: units rest₂
        else malformedUnit :: units (c :: d :: rest₂)
      | [c] => malformedUnit :: units [c]
      | [] => [malformedUnit]
    else malformedUnit :: units rest

/-- The text of a constant. -/
def decode (bytes : List UInt8) : String :=
  match Utf8.decode? bytes with
  | some text => text
  | none => String.ofList (Utf16.decodeLossy (units bytes))

end PackageAudit.ModifiedUtf8
