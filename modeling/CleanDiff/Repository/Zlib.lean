import CleanDiff.Text.Basic

/-!
# Compressed streams

Stored objects are zlib streams: two bytes of header, deflate blocks, and a
checksum. Reading understands all three kinds of blocks. Writing uses stored
blocks only, which every reader takes.

A deflate block is a sequence of bits, the lowest bit of each byte first. Codes
are canonical prefix codes: they are given by the number of bits of each symbol,
and shorter codes come first.
-/

namespace CleanDiff.Zlib

/-! ### Bits -/

/-- The bits of a byte string from some position on. -/
structure Bits where
  bytes : Bytes
  /-- How many bits of the first byte are used. -/
  used : Nat := 0

namespace Bits

/-- The next bit. -/
def next? (b : Bits) : Option (Nat × Bits) :=
  match b.bytes with
  | [] => none
  | byte :: rest =>
      let bit := byte.toNat / Nat.pow 2 b.used % 2
      some (bit, if b.used = 7 then ⟨rest, 0⟩ else ⟨b.bytes, b.used + 1⟩)

/-- The number in the next bits, the lowest first. -/
def take? : Nat → Bits → Option (Nat × Bits)
  | 0, b => some (0, b)
  | n + 1, b => do
      let (low, b) ← b.next?
      let (high, b) ← take? n b
      return (low + 2 * high, b)

/-- The bits from the next whole byte on. -/
def align (b : Bits) : Bytes := if b.used = 0 then b.bytes else b.bytes.tail

end Bits

/-! ### Prefix codes -/

/-- A canonical prefix code: how many symbols have each number of bits, and the
symbols in the order of their codes. -/
structure Code where
  counts : List Nat
  symbols : Array Nat

/-- The longest code. -/
def maxBits : Nat := 15

/-- The code in which symbol `i` has `lengths[i]` bits, none for zero. -/
def Code.ofLengths (lengths : List Nat) : Code :=
  let sizes := (List.range maxBits).map (· + 1)
  { counts := sizes.map fun n => lengths.count n
    symbols := (sizes.flatMap fun n =>
      lengths.zipIdx.filterMap fun p => if p.1 = n then some p.2 else none).toArray }

/-- Read a symbol: `code` bits are read so far, `first` is the first code of the
present length and `index` the place of its symbol. -/
def Code.read (c : Code) : (counts : List Nat) → (code first index : Nat) → Bits →
    Option (Nat × Bits)
  | [], _, _, _, _ => none
  | count :: rest, code, first, index, b => do
      let (bit, b) ← b.next?
      let code := code + bit
      if code < first + count then return (← c.symbols[index + (code - first)]?, b)
      else c.read rest (2 * code) (2 * (first + count)) (index + count) b

/-- Read a symbol. -/
def Code.symbol? (c : Code) (b : Bits) : Option (Nat × Bits) := c.read c.counts 0 0 0 b

/-- The code for literals and lengths in a block with fixed codes. -/
def fixedLiterals : Code :=
  .ofLengths (List.replicate 144 8 ++ List.replicate 112 9 ++ List.replicate 24 7 ++
    List.replicate 8 8)

/-- The code for distances in a block with fixed codes. -/
def fixedDistances : Code := .ofLengths (List.replicate 30 5)

/-! ### Blocks -/

/-- The least value and the extra bits of each length symbol from 257 on. -/
def lengthTable : List (Nat × Nat) :=
  [(3, 0), (4, 0), (5, 0), (6, 0), (7, 0), (8, 0), (9, 0), (10, 0), (11, 1), (13, 1), (15, 1),
    (17, 1), (19, 2), (23, 2), (27, 2), (31, 2), (35, 3), (43, 3), (51, 3), (59, 3), (67, 4),
    (83, 4), (99, 4), (115, 4), (131, 5), (163, 5), (195, 5), (227, 5), (258, 0)]

/-- The least value and the extra bits of each distance symbol. -/
def distanceTable : List (Nat × Nat) :=
  [(1, 0), (2, 0), (3, 0), (4, 0), (5, 1), (7, 1), (9, 2), (13, 2), (17, 3), (25, 3), (33, 4),
    (49, 4), (65, 5), (97, 5), (129, 6), (193, 6), (257, 7), (385, 7), (513, 8), (769, 8),
    (1025, 9), (1537, 9), (2049, 10), (3073, 10), (4097, 11), (6145, 11), (8193, 12), (12289, 12),
    (16385, 13), (24577, 13)]

/-- The number that a symbol of a table stands for, with its extra bits. -/
def extended? (table : List (Nat × Nat)) (symbol : Nat) (b : Bits) : Option (Nat × Bits) := do
  let (least, extra) ← table[symbol]?
  let (more, b) ← b.take? extra
  return (least + more, b)

/-- Append a copy of earlier output, byte by byte, so that it may overlap itself. -/
def copyBack (distance : Nat) : Nat → Array UInt8 → Array UInt8
  | 0, out => out
  | n + 1, out => copyBack distance n (out.push (out.getD (out.size - distance) 0))

/-- Read the symbols of a block, in at most `fuel` steps. -/
def readSymbols (literals distances : Code) :
    Nat → Bits → Array UInt8 → Option (Bits × Array UInt8)
  | 0, _, _ => none
  | fuel + 1, b, out => do
      let (symbol, b) ← literals.symbol? b
      if symbol < 256 then readSymbols literals distances fuel b (out.push (UInt8.ofNat symbol))
      else if symbol = 256 then return (b, out)
      else
        let (length, b) ← extended? lengthTable (symbol - 257) b
        let (symbol, b) ← distances.symbol? b
        let (distance, b) ← extended? distanceTable symbol b
        if out.size < distance then none
        else readSymbols literals distances fuel b (copyBack distance length out)

/-- The order in which the lengths of the code for code lengths are given. -/
def lengthOrder : List Nat :=
  [16, 17, 18, 0, 8, 7, 9, 6, 10, 5, 11, 4, 12, 3, 13, 2, 14, 1, 15]

/-- Read several numbers of so many bits. -/
def readNumbers (width : Nat) : Nat → Bits → Option (List Nat × Bits)
  | 0, b => some ([], b)
  | n + 1, b => do
      let (first, b) ← b.take? width
      let (rest, b) ← readNumbers width n b
      return (first :: rest, b)

/-- Read code lengths until there are `total`, in at most `fuel` steps. -/
def readLengths (code : Code) (total : Nat) : Nat → Bits → Array Nat → Option (Array Nat × Bits)
  | 0, b, lengths => if total ≤ lengths.size then some (lengths, b) else none
  | fuel + 1, b, lengths =>
      if total ≤ lengths.size then some (lengths, b)
      else do
        let (symbol, b) ← code.symbol? b
        let again (value least width : Nat) : Option (Array Nat × Bits) := do
          let (more, b) ← b.take? width
          readLengths code total fuel b (lengths ++ Array.replicate (least + more) value)
        match symbol with
        | 16 => if lengths.size = 0 then none else again (lengths.getD (lengths.size - 1) 0) 3 2
        | 17 => again 0 3 3
        | 18 => again 0 11 7
        | n => readLengths code total fuel b (lengths.push n)

/-- Read the codes of a block that brings its own. -/
def readCodes (b : Bits) : Option (Code × Code × Bits) := do
  let (literals, b) ← b.take? 5
  let (distances, b) ← b.take? 5
  let (sizes, b) ← b.take? 4
  let (given, b) ← readNumbers 3 (sizes + 4) b
  let named := lengthOrder.zip given
  let code := Code.ofLengths ((List.range 19).map fun i => (named.lookup i).getD 0)
  let total := literals + 257 + distances + 1
  let (lengths, b) ← readLengths code total (total + 1) b #[]
  if lengths.size = total then
    let (first, second) := lengths.toList.splitAt (literals + 257)
    return (.ofLengths first, .ofLengths second, b)
  else none

/-- Read a stored block. -/
def readStored (b : Bits) (out : Array UInt8) : Option (Bits × Array UInt8) :=
  match b.align with
  | lo :: hi :: nlo :: nhi :: rest =>
      let length := lo.toNat + 256 * hi.toNat
      if length + nlo.toNat + 256 * nhi.toNat = 65535 ∧ length ≤ rest.length then
        some (⟨rest.drop length, 0⟩, out ++ (rest.take length).toArray)
      else none
  | _ => none

/-- Read blocks up to the last one, in at most `fuel` steps. -/
def readBlocks : Nat → Bits → Array UInt8 → Option (Array UInt8)
  | 0, _, _ => none
  | fuel + 1, b, out => do
      let (last, b) ← b.take? 1
      let (kind, b) ← b.take? 2
      let steps := 8 * b.bytes.length + 1
      let (b, out) ← match kind with
        | 0 => readStored b out
        | 1 => readSymbols fixedLiterals fixedDistances steps b out
        | 2 => do
            let (literals, distances, b) ← readCodes b
            readSymbols literals distances steps b out
        | _ => none
      if last = 1 then return out else readBlocks fuel b out

/-- The content of a zlib stream. -/
def decompress? (stream : Bytes) : Option Bytes :=
  match stream with
  | method :: flags :: rest =>
      if method.toNat % 16 = 8 ∧ (256 * method.toNat + flags.toNat) % 31 = 0 then
        (readBlocks (8 * rest.length + 1) ⟨rest, 0⟩ #[]).map Array.toList
      else none
  | _ => none

/-! ### Writing -/

/-- The checksum of a stream's content. -/
def checksum (content : Bytes) : Bytes :=
  let (a, b) := content.foldl (fun (s : Nat × Nat) byte =>
    let a := (s.1 + byte.toNat) % 65521
    (a, (s.2 + a) % 65521)) (1, 0)
  [UInt8.ofNat (b / 256), UInt8.ofNat b, UInt8.ofNat (a / 256), UInt8.ofNat a]

/-- Content as stored blocks of at most 65535 bytes, `fuel + 1` of them at most. -/
def storedBlocks : Nat → Bytes → Bytes
  | 0, content => block 1 content
  | fuel + 1, content =>
      if content.length ≤ 65535 then block 1 content
      else block 0 (content.take 65535) ++ storedBlocks fuel (content.drop 65535)
where
  /-- One stored block. -/
  block (last : UInt8) (content : Bytes) : Bytes :=
    let n := content.length
    [last, UInt8.ofNat n, UInt8.ofNat (n / 256), UInt8.ofNat (65535 - n),
      UInt8.ofNat ((65535 - n) / 256)] ++ content

/-- A zlib stream with this content. -/
def wrap (content : Bytes) : Bytes :=
  [0x78, 0x01] ++ storedBlocks (content.length / 65535) content ++ checksum content

end CleanDiff.Zlib
