import CleanDiff.Text.Basic

/-!
# UTF-8

Texts are stored as UTF-8. Reading bytes gives a list of *units*: a character
where the bytes are well formed, and a gap where they are not. A gap takes the
longest run of bytes that could have begun a character, so one broken sequence
is one gap. A text is decodable when it has no gap; read *lossily*, every gap
becomes U+FFFD.
-/

namespace CleanDiff.Utf8

/-- The bytes of a text. -/
def encode (t : Text) : Bytes := t.flatMap String.utf8EncodeChar

/-- What the first byte of a longer character says: how many bytes follow it,
the bits it brings itself, and the range of the byte behind it. -/
structure Lead where
  following : Nat
  bits : Nat
  low : Nat
  high : Nat

/-- Read the first byte of a character of two to four bytes. Overlong forms,
surrogates and values beyond U+10FFFF are kept out by the range of the second
byte. -/
def lead? (b : Nat) : Option Lead :=
  if 0xC2 ≤ b ∧ b ≤ 0xDF then some ⟨1, b % 0x20, 0x80, 0xBF⟩
  else if 0xE0 ≤ b ∧ b ≤ 0xEF then
    some ⟨2, b % 0x10, if b = 0xE0 then 0xA0 else 0x80, if b = 0xED then 0x9F else 0xBF⟩
  else if 0xF0 ≤ b ∧ b ≤ 0xF4 then
    some ⟨3, b % 0x08, if b = 0xF0 then 0x90 else 0x80, if b = 0xF4 then 0x8F else 0xBF⟩
  else none

/-- Read the bytes that follow a first byte; the rest begins where the character
ends or breaks off. -/
def follow (bits low high : Nat) : Nat → Bytes → Option Nat × Bytes
  | 0, rest => (some bits, rest)
  | _ + 1, [] => (none, [])
  | n + 1, b :: rest =>
      if low ≤ b.toNat ∧ b.toNat ≤ high then follow (bits * 64 + b.toNat % 64) 0x80 0xBF n rest
      else (none, b :: rest)

/-- Read one unit, given its first byte. -/
def unit (b : UInt8) (rest : Bytes) : Option Char × Bytes :=
  if b.toNat < 0x80 then (some (Char.ofNat b.toNat), rest)
  else
    match lead? b.toNat with
    | none => (none, rest)
    | some l => (follow l.bits l.low l.high l.following rest).map (·.map Char.ofNat) id

theorem follow_length (bits low high n : Nat) (rest : Bytes) :
    (follow bits low high n rest).2.length ≤ rest.length := by
  fun_induction follow bits low high n rest with
  | case1 => exact Nat.le_refl _
  | case2 => exact Nat.le_refl _
  | case3 bits low high n b rest hb ih =>
    rw [List.length_cons]
    omega
  | case4 => exact Nat.le_refl _

theorem unit_length (b : UInt8) (rest : Bytes) : (unit b rest).2.length ≤ rest.length := by
  unfold unit
  split
  · simp
  · split
    · simp
    · simpa using follow_length ..

/-- The units of a byte string; a gap is `none`. -/
def units : Bytes → List (Option Char)
  | [] => []
  | b :: rest =>
      have := unit_length b rest
      (unit b rest).1 :: units (unit b rest).2
termination_by bytes => bytes.length
decreasing_by simp; omega

/-- The text of a byte string without gaps. -/
def decode? (bytes : Bytes) : Option Text := (units bytes).mapM id

/-- The text of a byte string, with U+FFFD for every gap. -/
def decodeLossy (bytes : Bytes) : Text := (units bytes).map (·.getD '\uFFFD')

end CleanDiff.Utf8
