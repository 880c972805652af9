/-
The checksum that archives keep of their files: the cyclic redundancy check of 32 bits with
the reflected polynomial 0xEDB88320.
-/
namespace PackageAudit.Crc32

/-- One division step. -/
def shift (register : UInt32) : UInt32 :=
  if register % 2 = 1 then (register >>> 1) ^^^ 0xEDB88320 else register >>> 1

/-- What eight division steps make of each low byte. -/
def table : Array UInt32 :=
  (Array.range 256).map fun i => (List.range 8).foldl (fun r _ => shift r) (UInt32.ofNat i)

/-- Takes up one byte: eight division steps, looked up for the low byte of the register. -/
def update (register : UInt32) (b : UInt8) : UInt32 :=
  (register >>> 8) ^^^ table.getD ((register ^^^ b.toUInt32) % 256).toNat 0

/-- The checksum of a byte sequence. -/
def ofBytes (bytes : Array UInt8) : UInt32 :=
  bytes.foldl update 0xFFFFFFFF ^^^ 0xFFFFFFFF

end PackageAudit.Crc32
