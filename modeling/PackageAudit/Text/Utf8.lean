/-
Text from UTF-8 bytes.

`scan` cuts a byte sequence into well-formed characters and malformed parts.  A
malformed part is the longest start of a character that the following bytes do
not continue, or a single byte that starts none, so a reader that replaces each
part by one replacement character loses as little as possible.  `decode?` accepts
a sequence without malformed parts; `decodeLossy` replaces them.
-/
namespace PackageAudit.Text

/-- U+FFFD, which stands for what could not be read. -/
def replacement : Char := '\uFFFD'

namespace Utf8

/-- Second and later bytes of a character. -/
def isContinuation (b : UInt8) : Bool := 0x80 ≤ b.toNat && b.toNat < 0xC0

/-- The second bytes that may follow the first byte of a three-byte character:
overlong forms and surrogates are left out. -/
def isSecondOfThree (first second : UInt8) : Bool :=
  if first.toNat = 0xE0 then 0xA0 ≤ second.toNat && second.toNat < 0xC0
  else if first.toNat = 0xED then 0x80 ≤ second.toNat && second.toNat < 0xA0
  else isContinuation second

/-- The second bytes that may follow the first byte of a four-byte character:
overlong forms and code points above U+10FFFF are left out. -/
def isSecondOfFour (first second : UInt8) : Bool :=
  if first.toNat = 0xF0 then 0x90 ≤ second.toNat && second.toNat < 0xC0
  else if first.toNat = 0xF4 then 0x80 ≤ second.toNat && second.toNat < 0x90
  else isContinuation second

/-- The characters of a byte sequence in order, with `none` for each malformed part. -/
def scan : List UInt8 → List (Option Char)
  | [] => []
  | b :: rest =>
    if b.toNat < 0x80 then
      some (Char.ofNat b.toNat) :: scan rest
    else if 0xC2 ≤ b.toNat && b.toNat < 0xE0 then
      match rest with
      | [] => [none]
      | c :: rest₁ =>
        if isContinuation c then
          some (Char.ofNat (b.toNat % 32 * 64 + c.toNat % 64)) :: scan rest₁
        else none :: scan (c :: rest₁)
    else if 0xE0 ≤ b.toNat && b.toNat < 0xF0 then
      match rest with
      | [] => [none]
      | c :: rest₁ =>
        if isSecondOfThree b c then
          match rest₁ with
          | [] => [none]
          | d :: rest₂ =>
            if isContinuation d then
              some (Char.ofNat (b.toNat % 16 * 4096 + c.toNat % 64 * 64 + d.toNat % 64)) :: scan rest₂
            else none :: scan (d :: rest₂)
        else none :: scan (c :: rest₁)
    else if 0xF0 ≤ b.toNat && b.toNat < 0xF5 then
      match rest with
      | [] => [none]
      | c :: rest₁ =>
        if isSecondOfFour b c then
          match rest₁ with
          | [] => [none]
          | d :: rest₂ =>
            if isContinuation d then
              match rest₂ with
              | [] => [none]
              | e :: rest₃ =>
                if isContinuation e then
                  some (Char.ofNat (b.toNat % 8 * 262144 + c.toNat % 64 * 4096
                    + d.toNat % 64 * 64 + e.toNat % 64)) :: scan rest₃
                else none :: scan (e :: rest₃)
            else none :: scan (d :: rest₂)
        else none :: scan (c :: rest₁)
    else none :: scan rest

/-- The text of a byte sequence that is UTF-8 throughout. -/
def decode? (bytes : List UInt8) : Option String :=
  (scan bytes).mapM id |>.map String.ofList

/-- The text of a byte sequence, with one replacement character for each malformed part. -/
def decodeLossy (bytes : List UInt8) : String :=
  String.ofList ((scan bytes).map (·.getD replacement))

/-- The UTF-8 bytes of a text. -/
def encode (text : List Char) : List UInt8 :=
  text.flatMap String.utf8EncodeChar

end Utf8

end PackageAudit.Text
