import CleanDiff.Text.Basic

/-!
# The SHA-1 digest

A repository names every object by the SHA-1 digest of its bytes. The message is
padded to blocks of sixteen words, and each block stirs a state of five words in
eighty rounds.
-/

namespace CleanDiff.Sha1

/-- The five words of the state. -/
structure State where
  a : UInt32
  b : UInt32
  c : UInt32
  d : UInt32
  e : UInt32

/-- The state before the first block. -/
def State.init : State := ⟨0x67452301, 0xEFCDAB89, 0x98BADCFE, 0x10325476, 0xC3D2E1F0⟩

/-- Rotate a word to the left. -/
def rotate (w n : UInt32) : UInt32 := (w <<< n) ||| (w >>> (32 - n))

/-- A number as so many bytes, the highest first. -/
def bigEndian : (count n : Nat) → Bytes
  | 0, _ => []
  | count + 1, n => bigEndian count (n / 256) ++ [UInt8.ofNat n]

/-- The message with its padding: one bit, zeros up to a whole block, and the
length in bits as the last eight bytes. -/
def pad (message : Bytes) : Bytes :=
  let zeros := (119 - message.length % 64) % 64
  message ++ 0x80 :: List.replicate zeros 0 ++ bigEndian 8 (8 * message.length)

/-- Bytes as words, the highest byte first. -/
def words : Bytes → List UInt32
  | a :: b :: c :: d :: rest =>
      ((a.toUInt32 <<< 24) ||| (b.toUInt32 <<< 16) ||| (c.toUInt32 <<< 8) ||| d.toUInt32)
        :: words rest
  | _ => []

/-- The eighty words of a block, from its first sixteen. -/
def schedule (block : List UInt32) : List UInt32 :=
  let extend := fun (ws : Array UInt32) (i : Nat) =>
    let at_ := fun j => ws.getD j 0
    ws.push (rotate (at_ (i + 13) ^^^ at_ (i + 8) ^^^ at_ (i + 2) ^^^ at_ i) 1)
  ((List.range 64).foldl extend block.toArray).toList

/-- The mixing function and the constant of a round. -/
def mix (s : State) (round : Nat) : UInt32 × UInt32 :=
  if round < 20 then ((s.b &&& s.c) ||| ((~~~ s.b) &&& s.d), 0x5A827999)
  else if round < 40 then (s.b ^^^ s.c ^^^ s.d, 0x6ED9EBA1)
  else if round < 60 then ((s.b &&& s.c) ||| (s.b &&& s.d) ||| (s.c &&& s.d), 0x8F1BBCDC)
  else (s.b ^^^ s.c ^^^ s.d, 0xCA62C1D6)

/-- One round. -/
def stir (s : State) (round : UInt32 × Nat) : State :=
  let (f, k) := mix s round.2
  ⟨rotate s.a 5 + f + s.e + k + round.1, s.a, rotate s.b 30, s.c, s.d⟩

/-- Take in one block. -/
def absorb (s : State) (block : List UInt32) : State :=
  let t := (schedule block).zipIdx.foldl stir s
  ⟨s.a + t.a, s.b + t.b, s.c + t.c, s.d + t.d, s.e + t.e⟩

/-- Take in the words of a message, block by block. -/
def absorbAll (s : State) (message : List UInt32) : State :=
  if h : message = [] then s
  else
    have := List.length_pos_iff.2 h
    absorbAll (absorb s (message.take 16)) (message.drop 16)
termination_by message.length
decreasing_by simp; omega

/-- The digest of a message, as twenty bytes. -/
def digest (message : Bytes) : Bytes :=
  let s := absorbAll .init (words (pad message))
  [s.a, s.b, s.c, s.d, s.e].flatMap fun w => bigEndian 4 w.toNat

end CleanDiff.Sha1
