/-
Decompression of deflated data.

Deflated data is a sequence of blocks, each stored as it is or coded by two Huffman codes, one
for bytes and lengths and one for distances.  Codes are canonical: they are given by the
lengths of their words alone.  Decompression ends with the last block, and what stands behind it
is left alone.  The data is read in order, so the first fault that is met is the one reported.
-/
import PackageAudit.Archive.Error

namespace PackageAudit.Inflate

/-- How far decompression has come: the number of bits that were read, and the output. -/
structure Progress where
  position : Nat := 0
  output : Array UInt8 := #[]

/-- A part of decompression. -/
abbrev Inflating := StateT Progress (Except DeflateFault)

/-- Puts out a byte. -/
def put (b : UInt8) : Inflating Unit :=
  modify fun progress => { progress with output := progress.output.push b }

/-! ### Bits -/

/-- The next bit; the bits of a byte come from the lowest on. -/
def bit (data : Array UInt8) : Inflating Nat := fun progress =>
  match data[progress.position / 8]? with
  | none => .error .incomplete
  | some b =>
    .ok ((b >>> UInt8.ofNat (progress.position % 8)).toNat % 2,
      { progress with position := progress.position + 1 })

/-- A number of `n` bits, the lowest first. -/
def bits (data : Array UInt8) : Nat → Inflating Nat
  | 0 => return 0
  | n + 1 => do
    let low ← bit data
    let high ← bits data n
    return low + 2 * high

/-- Passes over the rest of a byte of which bits have been read. -/
def alignToByte : Inflating Unit :=
  modify fun progress => { progress with position := (progress.position + 7) / 8 * 8 }

/-! ### Huffman codes -/

/-- A canonical code: how many words there are of each length from one on, and the symbols in the
order of their words. -/
structure HuffmanCode where
  counts : List Nat
  symbols : Array Nat

namespace HuffmanCode

/-- The symbols that have words of a length. -/
def symbolsOfLength (lengths : List Nat) (length : Nat) : List Nat :=
  (lengths.zipIdx.filter fun (l, _) => l == length).map Prod.snd

/-- The symbols of words, by the lengths of the words from one up to the greatest. -/
def groups (lengths : List Nat) : List (List Nat) :=
  (List.range (Nat.max 1 (lengths.foldl Nat.max 0))).map fun i => symbolsOfLength lengths (i + 1)

/-- The code with words of given lengths; length 0 means that a symbol has no word. -/
def ofLengths (lengths : List Nat) : HuffmanCode :=
  ⟨(groups lengths).map List.length, (groups lengths).flatten.toArray⟩

/-- Whether every sequence of bits starts with exactly one word.  The room for words doubles with
each bit, less the words that end there; in the end none may be left. -/
def isComplete (code : HuffmanCode) : Bool :=
  code.counts.foldl (fun (room : Int) (count : Nat) => 2 * room - count) 1 == 0

/-- Whether there is no word, or only one, which is one bit. -/
def isTrivial (code : HuffmanCode) : Bool :=
  code.counts == [0] || code.counts == [1]

/-- Reads a word bit by bit, for each length with the count of words in turn.  Of the words of a
length, `value` is the number of the bits read, `first` that of the first word, and `index` the
position of its symbol. -/
def decodeFrom (data : Array UInt8) (symbols : Array Nat) :
    List Nat → (value first index : Nat) → Inflating Nat
  | [], _, _, _ => throw .corrupt
  | count :: longer, value, first, index => do
    let value := value + (← bit data)
    if value < first + count then return symbols.getD (index + (value - first)) 0
    else decodeFrom data symbols longer (2 * value) (2 * (first + count)) (index + count)

/-- Reads the symbol of the next word. -/
def decode (data : Array UInt8) (code : HuffmanCode) : Inflating Nat :=
  decodeFrom data code.symbols code.counts 0 0 0

end HuffmanCode

/-- The codes of a block. -/
structure Codes where
  literals : HuffmanCode
  distances : HuffmanCode

/-- A code for lengths of words.  It must be complete. -/
def metaCode (lengths : List Nat) : Inflating HuffmanCode :=
  let code := HuffmanCode.ofLengths lengths
  if code.isComplete then return code else throw .corrupt

/-- A code of a block.  A block may need no more than one word of it, so one that is not complete
may be trivial. -/
def blockCode (lengths : List Nat) : Inflating HuffmanCode :=
  let code := HuffmanCode.ofLengths lengths
  if code.isComplete || code.isTrivial then return code else throw .corrupt

/-- The codes of blocks that bring none of their own. -/
def fixedCodes : Codes where
  literals := HuffmanCode.ofLengths (List.replicate 144 8 ++ List.replicate 112 9
    ++ List.replicate 24 7 ++ List.replicate 8 8)
  distances := HuffmanCode.ofLengths (List.replicate 32 5)

/-- The order in which the lengths of the words for lengths are given. -/
def lengthOrder : List Nat :=
  [16, 17, 18, 0, 8, 7, 9, 6, 10, 5, 11, 4, 12, 3, 13, 2, 14, 1, 15]

/-- Reads the lengths of words for lengths. -/
def metaLengths (data : Array UInt8) : List Nat → Inflating (List (Nat × Nat))
  | [] => return []
  | symbol :: rest => do
    let length ← bits data 3
    let others ← metaLengths data rest
    return (symbol, length) :: others

/-- Reads lengths of words until there are `wanted` of them; `found` holds the latest first.  Three
symbols repeat the latest length or zero. -/
def wordLengths (data : Array UInt8) (code : HuffmanCode) (wanted : Nat) :
    Nat → List Nat → Inflating (List Nat)
  | 0, _ => throw .corrupt
  | fuel + 1, found =>
    if found.length = wanted then return found.reverse
    else if wanted < found.length then throw .corrupt
    else do
      let symbol ← code.decode data
      if symbol < 16 then wordLengths data code wanted fuel (symbol :: found)
      else if symbol = 16 then
        match found with
        | [] => throw .corrupt
        | latest :: _ => do
          let n ← bits data 2
          wordLengths data code wanted fuel (List.replicate (n + 3) latest ++ found)
      else if symbol = 17 then do
        let n ← bits data 3
        wordLengths data code wanted fuel (List.replicate (n + 3) 0 ++ found)
      else do
        let n ← bits data 7
        wordLengths data code wanted fuel (List.replicate (n + 11) 0 ++ found)

/-- How many symbols for bytes and lengths, and how many for distances, a block may have words
for. -/
def maxLiterals : Nat := 286
@[inherit_doc maxLiterals]
def maxDistances : Nat := 30

/-- Reads the codes that a block brings. -/
def ownCodes (data : Array UInt8) : Inflating Codes := do
  let literalCount := (← bits data 5) + 257
  let distanceCount := (← bits data 5) + 1
  let metaCount := (← bits data 4) + 4
  if maxLiterals < literalCount || maxDistances < distanceCount then throw .corrupt
  let given ← metaLengths data (lengthOrder.take metaCount)
  let code ← metaCode ((List.range 19).map fun symbol => (given.lookup symbol).getD 0)
  let wanted := literalCount + distanceCount
  let lengths ← wordLengths data code wanted (wanted + 1) []
  let literals ← blockCode (lengths.take literalCount)
  let distances ← blockCode (lengths.drop literalCount)
  return ⟨literals, distances⟩

/-! ### Blocks -/

/-- Copies of earlier output: the least length of each symbol, and how many bits add to it. -/
def lengthBases : Array (Nat × Nat) :=
  #[(3, 0), (4, 0), (5, 0), (6, 0), (7, 0), (8, 0), (9, 0), (10, 0), (11, 1), (13, 1), (15, 1),
    (17, 1), (19, 2), (23, 2), (27, 2), (31, 2), (35, 3), (43, 3), (51, 3), (59, 3), (67, 4),
    (83, 4), (99, 4), (115, 4), (131, 5), (163, 5), (195, 5), (227, 5), (258, 0)]

/-- The least distance of each symbol, and how many bits add to it. -/
def distanceBases : Array (Nat × Nat) :=
  #[(1, 0), (2, 0), (3, 0), (4, 0), (5, 1), (7, 1), (9, 2), (13, 2), (17, 3), (25, 3), (33, 4),
    (49, 4), (65, 5), (97, 5), (129, 6), (193, 6), (257, 7), (385, 7), (513, 8), (769, 8),
    (1025, 9), (1537, 9), (2049, 10), (3073, 10), (4097, 11), (6145, 11), (8193, 12),
    (12289, 12), (16385, 13), (24577, 13)]

/-- Reads a quantity that a symbol begins. -/
def quantity (data : Array UInt8) (bases : Array (Nat × Nat)) (symbol : Nat) : Inflating Nat :=
  match bases[symbol]? with
  | none => throw .corrupt
  | some (base, extra) => do
    let n ← bits data extra
    return base + n

/-- Puts out again what was put out at a distance; before the first byte there are zeros. -/
def copyBack (distance : Nat) : Nat → Inflating Unit
  | 0 => return ()
  | n + 1 => fun progress =>
    let b :=
      if distance ≤ progress.output.size then
        progress.output.getD (progress.output.size - distance) 0
      else 0
    copyBack distance n { progress with output := progress.output.push b }

/-- Reads the symbols of a block up to its end.  Each takes at least one bit. -/
def symbols (data : Array UInt8) (codes : Codes) : Nat → Inflating Unit
  | 0 => throw .incomplete
  | fuel + 1 => do
    let symbol ← codes.literals.decode data
    if symbol < 256 then
      put (UInt8.ofNat symbol)
      symbols data codes fuel
    else if symbol = 256 then return ()
    else
      let length ← quantity data lengthBases (symbol - 257)
      let distance ← quantity data distanceBases (← codes.distances.decode data)
      copyBack distance length
      symbols data codes fuel

/-- Puts out bytes that are stored as they are. -/
def storedBytes (data : Array UInt8) : Nat → Inflating Unit
  | 0 => return ()
  | n + 1 => do
    let b ← bits data 8
    put (UInt8.ofNat b)
    storedBytes data n

/-- Reads a block that is stored as it is, with its size written twice. -/
def storedBlock (data : Array UInt8) : Inflating Unit := do
  alignToByte
  let size ← bits data 16
  let inverse ← bits data 16
  if size + inverse = 65535 then storedBytes data size else throw .corrupt

/-- An upper bound for the symbols in data. -/
def symbolBound (data : Array UInt8) : Nat := 8 * data.size + 1

/-- Reads a block.  The result says whether it is the last one. -/
def block (data : Array UInt8) : Inflating Bool := do
  let last ← bit data
  let kind ← bits data 2
  if kind = 0 then storedBlock data
  else if kind = 1 then
    symbols data fixedCodes (symbolBound data)
  else if kind = 2 then
    let codes ← ownCodes data
    symbols data codes (symbolBound data)
  else throw .corrupt
  return last = 1

/-- Reads blocks up to the last one.  Each takes at least one bit. -/
def blocks (data : Array UInt8) : Nat → Inflating Unit
  | 0 => throw .incomplete
  | fuel + 1 => do
    if ← block data then return () else blocks data fuel

/-- Decompresses data. -/
def run (data : Array UInt8) : Except DeflateFault (Array UInt8) :=
  (blocks data (symbolBound data) {}).map fun (_, progress) => progress.output

end PackageAudit.Inflate
