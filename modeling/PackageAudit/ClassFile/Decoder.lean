/-
Reading big-endian binary data front to back.

A decoder takes a cursor, which is the unread bytes together with the number of bytes
read so far, and either fails or hands back a value and the cursor behind it.  What a
decoder returns depends only on the bytes it reads: all decoders are put together from
`bytes`, which looks at no byte beyond those it takes.
-/
import PackageAudit.ClassFile.Error

namespace PackageAudit

/-- A place in a byte sequence: how many bytes lie before it and which follow. -/
structure Cursor where
  offset : Nat
  rest : List UInt8
  deriving DecidableEq, Repr

/-- A reader of binary data that may fail. -/
abbrev Decoder := StateT Cursor (Except DecodeError)

namespace Decoder

/-- The value of a big-endian byte sequence. -/
def bigEndian (bytes : List UInt8) : Nat :=
  bytes.foldl (fun value b => value * 256 + b.toNat) 0

/-- The next `n` bytes. -/
def bytes (n : Nat) : Decoder (List UInt8) := fun cursor =>
  let (taken, rest) := cursor.rest.splitAt n
  if taken.length = n then .ok (taken, ⟨cursor.offset + n, rest⟩)
  else .error (.truncated cursor.offset n)

/-- Leaves out the next `n` bytes. -/
def skip (n : Nat) : Decoder Unit := do
  let _ ← bytes n

/-- An unsigned byte. -/
def u8 : Decoder UInt8 := do
  return UInt8.ofNat (bigEndian (← bytes 1))

/-- An unsigned 16-bit number. -/
def u16 : Decoder UInt16 := do
  return UInt16.ofNat (bigEndian (← bytes 2))

/-- An unsigned 32-bit number. -/
def u32 : Decoder UInt32 := do
  return UInt32.ofNat (bigEndian (← bytes 4))

/-- An unsigned 64-bit number, read as two halves. -/
def u64 : Decoder UInt64 := do
  let high ← u32
  let low ← u32
  return UInt64.ofNat (high.toNat * 4294967296 + low.toNat)

/-- Runs a decoder `n` times and collects the results. -/
def times {α : Type} (item : Decoder α) : Nat → Decoder (List α)
  | 0 => return []
  | n + 1 => do
    let head ← item
    let tail ← times item n
    return head :: tail

/-- A 16-bit count followed by that many items. -/
def counted {α : Type} (item : Decoder α) : Decoder (List α) := do
  let count ← u16
  times item count.toNat

/-- Takes up the result of a look-up that may fail. -/
def lift {α : Type} (result : Except DecodeError α) : Decoder α := fun cursor =>
  match result with
  | .ok value => .ok (value, cursor)
  | .error e => .error e

/-- Runs a decoder on a byte sequence of its own, from offset 0; what it leaves unread is dropped. -/
def runOn {α : Type} (decoder : Decoder α) (bytes : List UInt8) : Except DecodeError α :=
  match decoder ⟨0, bytes⟩ with
  | .ok (value, _) => .ok value
  | .error e => .error e

end Decoder

end PackageAudit
