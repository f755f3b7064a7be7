import CleanDiff.Text.Utf8

/-!
# Reading and writing UTF-8

**A byte string that can be read is written back as it was** (`encode_of_decode?`), and a
text that was written is read as it was (`decode?_encode`). So a file whose text is not
changed keeps its bytes, and two readable files with one text have the same bytes. What is
more, **texts are ordered as their bytes are** (`encode_lt_encode_iff`).

The reader works on one unit at a time, so the statement rests on one about a unit
(`append_of_unit`): the bytes of the character read are exactly the bytes taken. The
ranges that a first byte sets for the second one are what keeps a character from
having a second, longer form.
-/

namespace CleanDiff.Utf8

theorem toNat_val_ofNat {n : Nat} (h : n.isValidChar) : (Char.ofNat n).val.toNat = n := by
  rw [Char.ofNat, dif_pos h]
  rfl

/-! ### The bytes of a character, by its length -/

theorem encode_one {n : Nat} (h : n ≤ 0x7f) :
    String.utf8EncodeChar (Char.ofNat n) = [UInt8.ofNat n] := by
  have hval : (Char.ofNat n).val.toNat = n := toNat_val_ofNat (Or.inl (by omega))
  rw [String.utf8EncodeChar, hval, if_pos h]

theorem encode_two {n : Nat} (hlow : 0x80 ≤ n) (hhigh : n ≤ 0x7ff) :
    String.utf8EncodeChar (Char.ofNat n) =
      [UInt8.ofNat (n / 64 % 32 + 0xc0), UInt8.ofNat (n % 64 + 0x80)] := by
  have hval : (Char.ofNat n).val.toNat = n := toNat_val_ofNat (Or.inl (by omega))
  rw [String.utf8EncodeChar, hval, if_neg (by omega), if_pos hhigh]

theorem encode_three {n : Nat} (hvalid : n.isValidChar) (hlow : 0x800 ≤ n) (hhigh : n ≤ 0xffff) :
    String.utf8EncodeChar (Char.ofNat n) =
      [UInt8.ofNat (n / 4096 % 16 + 0xe0), UInt8.ofNat (n / 64 % 64 + 0x80),
        UInt8.ofNat (n % 64 + 0x80)] := by
  rw [String.utf8EncodeChar, toNat_val_ofNat hvalid, if_neg (by omega), if_neg (by omega),
    if_pos hhigh]

theorem encode_four {n : Nat} (hlow : 0x10000 ≤ n) (hhigh : n ≤ 0x10ffff) :
    String.utf8EncodeChar (Char.ofNat n) =
      [UInt8.ofNat (n / 262144 % 8 + 0xf0), UInt8.ofNat (n / 4096 % 64 + 0x80),
        UInt8.ofNat (n / 64 % 64 + 0x80), UInt8.ofNat (n % 64 + 0x80)] := by
  have hval : (Char.ofNat n).val.toNat = n := toNat_val_ofNat (Or.inr (by omega))
  rw [String.utf8EncodeChar, hval, if_neg (by omega), if_neg (by omega), if_neg (by omega)]

theorem ofNat_eq {n : Nat} {b : UInt8} (h : n = b.toNat) : UInt8.ofNat n = b := by
  rw [h]
  exact UInt8.ofNat_toNat

/-! ### One unit -/

/-- A byte that follows lies in its range, and the rest is read on from there. -/
theorem follow_succ {bits low high n value : Nat} {bytes rest : Bytes}
    (h : follow bits low high (n + 1) bytes = (some value, rest)) :
    ∃ b tail, bytes = b :: tail ∧ low ≤ b.toNat ∧ b.toNat ≤ high ∧
      follow (bits * 64 + b.toNat % 64) 0x80 0xBF n tail = (some value, rest) := by
  cases bytes with
  | nil => exact absurd h (by simp [follow])
  | cons b tail =>
      rw [follow] at h
      split at h
      · next hrange => exact ⟨b, tail, rfl, hrange.1, hrange.2, h⟩
      · exact absurd h (by simp)

theorem follow_zero {bits low high value : Nat} {bytes rest : Bytes}
    (h : follow bits low high 0 bytes = (some value, rest)) : bits = value ∧ bytes = rest := by
  simpa [follow] using h

/-- The three kinds of first bytes. -/
theorem lead?_cases {b : Nat} {l : Lead} (h : lead? b = some l) :
    (0xC2 ≤ b ∧ b ≤ 0xDF ∧ l = ⟨1, b % 0x20, 0x80, 0xBF⟩) ∨
    (0xE0 ≤ b ∧ b ≤ 0xEF ∧
      l = ⟨2, b % 0x10, if b = 0xE0 then 0xA0 else 0x80, if b = 0xED then 0x9F else 0xBF⟩) ∨
    (0xF0 ≤ b ∧ b ≤ 0xF4 ∧
      l = ⟨3, b % 0x08, if b = 0xF0 then 0x90 else 0x80, if b = 0xF4 then 0x8F else 0xBF⟩) := by
  unfold lead? at h
  split at h
  · next hb => exact Or.inl ⟨hb.1, hb.2, (Option.some.inj h).symm⟩
  · split at h
    · next hb => exact Or.inr (Or.inl ⟨hb.1, hb.2, (Option.some.inj h).symm⟩)
    · split at h
      · next hb => exact Or.inr (Or.inr ⟨hb.1, hb.2, (Option.some.inj h).symm⟩)
      · exact absurd h (by simp)

/-- The second byte of a unit has a narrower range behind some first bytes, and always
the range of a byte that follows. -/
theorem second_low {p : Prop} [Decidable p] {low n : Nat} (hlow : 0x80 ≤ low)
    (h : (if p then low else 0x80) ≤ n) : 0x80 ≤ n ∧ (p → low ≤ n) := by
  split at h
  · exact ⟨Nat.le_trans hlow h, fun _ => h⟩
  · next hp => exact ⟨h, fun hp' => absurd hp' hp⟩

theorem second_high {p : Prop} [Decidable p] {high n : Nat} (hhigh : high ≤ 0xBF)
    (h : n ≤ if p then high else 0xBF) : n ≤ 0xBF ∧ (p → n ≤ high) := by
  split at h
  · exact ⟨Nat.le_trans h hhigh, fun _ => h⟩
  · next hp => exact ⟨h, fun hp' => absurd hp' hp⟩

theorem append_of_follow {b : UInt8} {l : Lead} {bytes rest : Bytes} {value : Nat}
    (hl : lead? b.toNat = some l)
    (h : follow l.bits l.low l.high l.following bytes = (some value, rest)) :
    String.utf8EncodeChar (Char.ofNat value) ++ rest = b :: bytes := by
  rcases lead?_cases hl with ⟨hb, hb', rfl⟩ | ⟨hb, hb', rfl⟩ | ⟨hb, hb', rfl⟩ <;> dsimp only at h
  · obtain ⟨b1, tail, rfl, h1, h1', h⟩ := follow_succ h
    obtain ⟨rfl, rfl⟩ := follow_zero h
    rw [encode_two (by omega) (by omega), ofNat_eq (b := b) (by omega),
      ofNat_eq (b := b1) (by omega)]
    rfl
  · obtain ⟨b1, tail, rfl, h1, h1', h⟩ := follow_succ h
    obtain ⟨b2, tail, rfl, h2, h2', h⟩ := follow_succ h
    obtain ⟨rfl, rfl⟩ := follow_zero h
    -- The range of the second byte keeps out short characters and surrogates.
    obtain ⟨h1, hlow⟩ := second_low (by omega) h1
    obtain ⟨h1', hhigh⟩ := second_high (by omega) h1'
    rw [encode_three (by unfold Nat.isValidChar; omega) (by omega) (by omega),
      ofNat_eq (b := b) (by omega), ofNat_eq (b := b1) (by omega), ofNat_eq (b := b2) (by omega)]
    rfl
  · obtain ⟨b1, tail, rfl, h1, h1', h⟩ := follow_succ h
    obtain ⟨b2, tail, rfl, h2, h2', h⟩ := follow_succ h
    obtain ⟨b3, tail, rfl, h3, h3', h⟩ := follow_succ h
    obtain ⟨rfl, rfl⟩ := follow_zero h
    -- Here it keeps out short characters and values beyond the last one.
    obtain ⟨h1, hlow⟩ := second_low (by omega) h1
    obtain ⟨h1', hhigh⟩ := second_high (by omega) h1'
    rw [encode_four (by omega) (by omega), ofNat_eq (b := b) (by omega),
      ofNat_eq (b := b1) (by omega), ofNat_eq (b := b2) (by omega), ofNat_eq (b := b3) (by omega)]
    rfl

/-- The bytes of the character read are the bytes taken. -/
theorem append_of_unit {b : UInt8} {bytes rest : Bytes} {c : Char}
    (h : unit b bytes = (some c, rest)) : String.utf8EncodeChar c ++ rest = b :: bytes := by
  unfold unit at h
  split at h
  · next hb =>
    obtain ⟨hc, rfl⟩ := Prod.mk.inj h
    rw [← Option.some.inj hc, encode_one (by omega), ofNat_eq rfl]
    rfl
  · split at h
    · exact absurd h (by simp)
    · next l hl =>
      obtain ⟨hchar, rfl⟩ := Prod.mk.inj h
      obtain ⟨value, hvalue, rfl⟩ := Option.map_eq_some_iff.1 hchar
      exact append_of_follow hl (Prod.ext hvalue rfl)

/-! ### Whole byte strings -/

theorem encode_append (s t : Text) : encode (s ++ t) = encode s ++ encode t := List.flatMap_append

theorem encodeChar_ne_nil (c : Char) : String.utf8EncodeChar c ≠ [] := by
  rw [← List.length_pos_iff, String.length_utf8EncodeChar]
  exact c.utf8Size_pos

theorem encode_ne_nil {t : Text} (h : t ≠ []) : encode t ≠ [] := by
  obtain ⟨c, t, rfl⟩ := List.exists_cons_of_ne_nil h
  exact List.append_ne_nil_of_left_ne_nil (encodeChar_ne_nil c) _

theorem encode_of_units {bytes : Bytes} {t : Text} (h : units bytes = t.map some) :
    encode t = bytes := by
  fun_induction units bytes generalizing t with
  | case1 =>
      rw [List.map_eq_nil_iff.1 h.symm]
      rfl
  | case2 b rest _ ih =>
      cases t with
      | nil => exact absurd h (by simp)
      | cons c t =>
          obtain ⟨hc, ht⟩ := List.cons.inj h
          show String.utf8EncodeChar c ++ encode t = b :: rest
          rw [ih ht]
          exact append_of_unit (Prod.ext hc rfl)

theorem eq_map_some_of_mapM {l : List (Option Char)} {t : Text} (h : l.mapM id = some t) :
    l = t.map some := by
  induction l generalizing t with
  | nil =>
      rw [← Option.some.inj h]
      rfl
  | cons u l ih =>
      rw [List.mapM_cons] at h
      obtain ⟨c, hc, h⟩ := Option.bind_eq_some_iff.1 h
      obtain ⟨t', ht', h⟩ := Option.bind_eq_some_iff.1 h
      rw [← Option.some.inj h, List.map_cons, ih ht', show u = some c from hc]

/-- A byte string that can be read is written back as it was. -/
theorem encode_of_decode? {bytes : Bytes} {t : Text} (h : decode? bytes = some t) :
    encode t = bytes :=
  encode_of_units (eq_map_some_of_mapM h)

/-- Different texts have different bytes. -/
theorem encode_injective : Function.Injective encode := by
  intro s t h
  have hbytes : s.utf8Encode = t.utf8Encode := congrArg (fun bytes : Bytes => bytes.toByteArray) h
  have hchars := congrArg ByteArray.utf8Decode? hbytes
  rw [List.utf8Decode?_utf8Encode, List.utf8Decode?_utf8Encode] at hchars
  exact Array.toList_inj.2 (Option.some.inj hchars)

/-! ### Reading what was written -/

/-- The four lengths in which a character can be written, by its number. -/
theorem length_cases {n : Nat} (h : n.isValidChar) :
    n ≤ 0x7f ∨ 0x80 ≤ n ∧ n ≤ 0x7ff ∨ 0x800 ≤ n ∧ n ≤ 0xffff ∨ 0x10000 ≤ n ∧ n ≤ 0x10ffff := by
  unfold Nat.isValidChar at h
  omega

/-- A following byte in its range is taken. -/
theorem follow_cons {bits low high n k : Nat} (rest : Bytes) (hk : k < 0x100) (hlow : low ≤ k)
    (hhigh : k ≤ high) :
    follow bits low high (n + 1) (UInt8.ofNat k :: rest) =
      follow (bits * 64 + k % 64) 0x80 0xBF n rest := by
  rw [follow, UInt8.toNat_ofNat_of_lt' hk, if_pos ⟨hlow, hhigh⟩]

/-- The bytes behind a first byte decide on the character. -/
theorem unit_of_lead? {k value : Nat} {l : Lead} {bytes rest : Bytes} (hlow : 0x80 ≤ k)
    (hk : k < 0x100) (hl : lead? k = some l)
    (h : follow l.bits l.low l.high l.following bytes = (some value, rest)) :
    unit (UInt8.ofNat k) bytes = (some (Char.ofNat value), rest) := by
  rw [unit, UInt8.toNat_ofNat_of_lt' hk, if_neg (by omega), hl]
  simp only [h]
  rfl

/-- A character that was written is the unit that is read. -/
theorem unit_encodeChar {n : Nat} (hvalid : n.isValidChar) (rest : Bytes) :
    ∃ b tail, String.utf8EncodeChar (Char.ofNat n) ++ rest = b :: tail ∧
      unit b tail = (some (Char.ofNat n), rest) := by
  rcases length_cases hvalid with hn | ⟨hlow, hhigh⟩ | ⟨hlow, hhigh⟩ | ⟨hlow, hhigh⟩
  · rw [encode_one hn]
    refine ⟨_, _, rfl, ?_⟩
    rw [unit, UInt8.toNat_ofNat_of_lt' (show n < 0x100 by omega), if_pos (by omega)]
    rfl
  · rw [encode_two hlow hhigh]
    refine ⟨_, _, rfl, ?_⟩
    have hlead : lead? (n / 64 % 32 + 0xc0) = some ⟨1, n / 64 % 32, 0x80, 0xBF⟩ := by
      rw [lead?, if_pos (by omega), show (n / 64 % 32 + 0xc0) % 0x20 = n / 64 % 32 by omega]
    apply unit_of_lead? (by omega) (by omega) hlead
    dsimp only
    refine (follow_cons _ (by omega) (by omega) (by omega)).trans ?_
    rw [follow, show n / 64 % 32 * 64 + (n % 64 + 0x80) % 64 = n by omega]
    rfl
  · rw [encode_three hvalid hlow hhigh]
    refine ⟨_, _, rfl, ?_⟩
    have hlead : lead? (n / 4096 % 16 + 0xe0) = some ⟨2, n / 4096 % 16,
        if n / 4096 % 16 + 0xe0 = 0xE0 then 0xA0 else 0x80,
        if n / 4096 % 16 + 0xe0 = 0xED then 0x9F else 0xBF⟩ := by
      rw [lead?, if_neg (by omega), if_pos (by omega),
        show (n / 4096 % 16 + 0xe0) % 0x10 = n / 4096 % 16 by omega]
    apply unit_of_lead? (by omega) (by omega) hlead
    have hsecond : (if n / 4096 % 16 + 0xe0 = 0xE0 then 0xA0 else 0x80) ≤ n / 64 % 64 + 0x80 ∧
        n / 64 % 64 + 0x80 ≤ if n / 4096 % 16 + 0xe0 = 0xED then 0x9F else 0xBF := by
      unfold Nat.isValidChar at hvalid
      constructor <;> split <;> omega
    refine (follow_cons _ (by omega) hsecond.1 hsecond.2).trans ?_
    refine (follow_cons _ (by omega) (by omega) (by omega)).trans ?_
    rw [follow,
      show (n / 4096 % 16 * 64 + (n / 64 % 64 + 0x80) % 64) * 64 + (n % 64 + 0x80) % 64 = n by
        omega]
    rfl
  · rw [encode_four hlow hhigh]
    refine ⟨_, _, rfl, ?_⟩
    have hlead : lead? (n / 262144 % 8 + 0xf0) = some ⟨3, n / 262144 % 8,
        if n / 262144 % 8 + 0xf0 = 0xF0 then 0x90 else 0x80,
        if n / 262144 % 8 + 0xf0 = 0xF4 then 0x8F else 0xBF⟩ := by
      rw [lead?, if_neg (by omega), if_neg (by omega), if_pos (by omega),
        show (n / 262144 % 8 + 0xf0) % 0x08 = n / 262144 % 8 by omega]
    apply unit_of_lead? (by omega) (by omega) hlead
    have hsecond : (if n / 262144 % 8 + 0xf0 = 0xF0 then 0x90 else 0x80) ≤ n / 4096 % 64 + 0x80 ∧
        n / 4096 % 64 + 0x80 ≤ if n / 262144 % 8 + 0xf0 = 0xF4 then 0x8F else 0xBF := by
      constructor <;> split <;> omega
    refine (follow_cons _ (by omega) hsecond.1 hsecond.2).trans ?_
    refine (follow_cons _ (by omega) (by omega) (by omega)).trans ?_
    refine (follow_cons _ (by omega) (by omega) (by omega)).trans ?_
    rw [follow,
      show ((n / 262144 % 8 * 64 + (n / 4096 % 64 + 0x80) % 64) * 64 +
        (n / 64 % 64 + 0x80) % 64) * 64 + (n % 64 + 0x80) % 64 = n by omega]
    rfl

theorem units_encode (t : Text) : units (encode t) = t.map some := by
  induction t with
  | nil => simp [encode, units]
  | cons c t ih =>
      obtain ⟨b, tail, hbytes, hunit⟩ := unit_encodeChar c.valid (encode t)
      rw [show Char.ofNat c.val.toNat = c from c.ofNat_toNat] at hbytes hunit
      rw [show encode (c :: t) = b :: tail from hbytes, units, hunit, List.map_cons, ← ih]

theorem mapM_map_some (t : Text) : (t.map some).mapM id = some t := by
  induction t with
  | nil => rfl
  | cons c t ih => rw [List.map_cons, List.mapM_cons, ih]; rfl

/-- A text that was written is read as it was. -/
theorem decode?_encode (t : Text) : decode? (encode t) = some t := by
  rw [decode?, units_encode, mapM_map_some]

theorem decodeLossy_encode (t : Text) : decodeLossy (encode t) = t := by
  rw [decodeLossy, units_encode, List.map_map]
  exact List.map_id t

theorem decode?_eq_some_iff {bytes : Bytes} {t : Text} :
    decode? bytes = some t ↔ encode t = bytes :=
  ⟨encode_of_decode?, fun h => h ▸ decode?_encode t⟩

/-! ### ASCII characters -/

theorem eq_of_ofNat_eq {k n : Nat} (hk : k < 0x100) (hn : n < 0x100)
    (h : UInt8.ofNat k = UInt8.ofNat n) : n = k := by
  have hnat := congrArg UInt8.toNat h
  rw [UInt8.toNat_ofNat_of_lt' hk, UInt8.toNat_ofNat_of_lt' hn] at hnat
  exact hnat.symm

/-- No other character has the byte of an ASCII character. -/
theorem eq_of_mem_encodeChar {k n : Nat} (hk : k < 0x80) (hn : n.isValidChar)
    (h : UInt8.ofNat k ∈ String.utf8EncodeChar (Char.ofNat n)) : n = k := by
  have hsame : ∀ {m : Nat}, m < 0x100 → UInt8.ofNat k = UInt8.ofNat m → m = k :=
    fun hm => eq_of_ofNat_eq (by omega) hm
  rcases length_cases hn with hn1 | ⟨hn2, hn2'⟩ | ⟨hn3, hn3'⟩ | ⟨hn4, hn4'⟩
  · rw [encode_one hn1, List.mem_singleton] at h
    exact hsame (by omega) h
  · rw [encode_two hn2 hn2'] at h
    simp only [List.mem_cons, List.not_mem_nil, or_false] at h
    rcases h with h | h <;> have := hsame (by omega) h <;> omega
  · rw [encode_three hn hn3 hn3'] at h
    simp only [List.mem_cons, List.not_mem_nil, or_false] at h
    rcases h with h | h | h <;> have := hsame (by omega) h <;> omega
  · rw [encode_four hn4 hn4'] at h
    simp only [List.mem_cons, List.not_mem_nil, or_false] at h
    rcases h with h | h | h | h <;> have := hsame (by omega) h <;> omega

theorem eq_of_ascii_mem_encodeChar {a c : Char} (ha : a.toNat < 0x80)
    (h : UInt8.ofNat a.toNat ∈ String.utf8EncodeChar c) : c = a := by
  have hn : c.toNat = a.toNat := eq_of_mem_encodeChar ha c.valid (by rwa [← c.ofNat_toNat] at h)
  rw [← c.ofNat_toNat, hn, a.ofNat_toNat]

/-! ### Pieces between slashes -/

theorem splitOn_append_of_not_mem {α : Type} [DecidableEq α] {sep : α} {front : List α}
    (h : sep ∉ front) (t : List α) :
    (front ++ t).splitOn sep = (t.splitOn sep).modifyHead (front ++ ·) := by
  induction front with
  | nil =>
      rw [List.nil_append]
      cases t.splitOn sep <;> rfl
  | cons a front ih =>
      rw [List.mem_cons, not_or] at h
      have hsep : (a == sep) = false := by simpa using Ne.symm h.1
      rw [List.cons_append, List.splitOn_eq_splitOnP, List.splitOnP_cons_eq_if_modifyHead, hsep,
        if_neg (by simp), ← List.splitOn_eq_splitOnP, ih h.2, List.modifyHead_modifyHead]
      rfl

/-- The pieces between slashes are the same in a text and in its bytes. -/
theorem splitOn_encode (t : Text) : (encode t).splitOn 0x2F = (t.splitOn '/').map encode := by
  induction t with
  | nil => rfl
  | cons c t ih =>
      rw [show encode (c :: t) = String.utf8EncodeChar c ++ encode t from rfl]
      by_cases hc : c = '/'
      · have hslash : String.utf8EncodeChar '/' = [0x2F] := by decide
        have hbytes : (0x2F :: encode t).splitOn 0x2F = [] :: (encode t).splitOn 0x2F :=
          List.splitOn_append_cons_self [] (encode t)
        have htext : ('/' :: t).splitOn '/' = [] :: t.splitOn '/' :=
          List.splitOn_append_cons_self [] t
        rw [hc, hslash, List.singleton_append, hbytes, htext, ih]
        rfl
      · have hnot : (0x2F : UInt8) ∉ String.utf8EncodeChar c := fun hmem =>
          hc (eq_of_ascii_mem_encodeChar (a := '/') (by decide) hmem)
        have hnot' : '/' ∉ [c] := by simpa using Ne.symm hc
        rw [splitOn_append_of_not_mem hnot, ih,
          show c :: t = [c] ++ t from rfl, splitOn_append_of_not_mem hnot']
        cases t.splitOn '/' <;> simp [encode]

/-! ### Order -/

/-- Bytes are compared first by their numbers, and then by what follows them. -/
theorem cons_lt_cons {k l : Nat} {s t : Bytes} (hk : k < 0x100) (hl : l < 0x100) (h : k ≤ l)
    (hrest : k = l → s < t) : UInt8.ofNat k :: s < UInt8.ofNat l :: t := by
  rw [List.cons_lt_cons_iff, UInt8.lt_iff_toNat_lt, UInt8.toNat_ofNat_of_lt' hk,
    UInt8.toNat_ofNat_of_lt' hl]
  rcases Nat.lt_or_eq_of_le h with hlt | heq
  · exact Or.inl hlt
  · exact Or.inr ⟨congrArg UInt8.ofNat heq, hrest heq⟩

/-- Of two characters the lesser one has the lesser bytes, whatever follows them. -/
theorem encodeChar_append_lt {n m : Nat} (hn : n.isValidChar) (hm : m.isValidChar) (h : n < m)
    (s t : Bytes) :
    String.utf8EncodeChar (Char.ofNat n) ++ s < String.utf8EncodeChar (Char.ofNat m) ++ t := by
  rcases length_cases hn with hn1 | ⟨hn2, hn2'⟩ | ⟨hn3, hn3'⟩ | ⟨hn4, hn4'⟩ <;>
    rcases length_cases hm with hm1 | ⟨hm2, hm2'⟩ | ⟨hm3, hm3'⟩ | ⟨hm4, hm4'⟩ <;>
    -- The lesser character is not the longer one.
    first
    | omega
    | skip
  · rw [encode_one hn1, encode_one hm1]
    exact cons_lt_cons (by omega) (by omega) (by omega) (by omega)
  · rw [encode_one hn1, encode_two hm2 hm2']
    exact cons_lt_cons (by omega) (by omega) (by omega) (by omega)
  · rw [encode_one hn1, encode_three hm hm3 hm3']
    exact cons_lt_cons (by omega) (by omega) (by omega) (by omega)
  · rw [encode_one hn1, encode_four hm4 hm4']
    exact cons_lt_cons (by omega) (by omega) (by omega) (by omega)
  · rw [encode_two hn2 hn2', encode_two hm2 hm2']
    refine cons_lt_cons (by omega) (by omega) (by omega) fun h1 => ?_
    exact cons_lt_cons (by omega) (by omega) (by omega) (by omega)
  · rw [encode_two hn2 hn2', encode_three hm hm3 hm3']
    exact cons_lt_cons (by omega) (by omega) (by omega) (by omega)
  · rw [encode_two hn2 hn2', encode_four hm4 hm4']
    exact cons_lt_cons (by omega) (by omega) (by omega) (by omega)
  · rw [encode_three hn hn3 hn3', encode_three hm hm3 hm3']
    refine cons_lt_cons (by omega) (by omega) (by omega) fun h1 => ?_
    refine cons_lt_cons (by omega) (by omega) (by omega) fun h2 => ?_
    exact cons_lt_cons (by omega) (by omega) (by omega) (by omega)
  · rw [encode_three hn hn3 hn3', encode_four hm4 hm4']
    exact cons_lt_cons (by omega) (by omega) (by omega) (by omega)
  · rw [encode_four hn4 hn4', encode_four hm4 hm4']
    refine cons_lt_cons (by omega) (by omega) (by omega) fun h1 => ?_
    refine cons_lt_cons (by omega) (by omega) (by omega) fun h2 => ?_
    refine cons_lt_cons (by omega) (by omega) (by omega) fun h3 => ?_
    exact cons_lt_cons (by omega) (by omega) (by omega) (by omega)

theorem encode_lt_encode {s t : Text} (h : s < t) : encode s < encode t := by
  induction s generalizing t with
  | nil =>
      cases t with
      | nil => exact absurd h (List.lt_irrefl _)
      | cons d t =>
          obtain ⟨b, tail, hbytes, -⟩ := unit_encodeChar d.valid (encode t)
          rw [show Char.ofNat d.val.toNat = d from d.ofNat_toNat] at hbytes
          rw [show encode (d :: t) = b :: tail from hbytes]
          exact List.nil_lt_cons b tail
  | cons c s ih =>
      cases t with
      | nil => exact absurd h (List.not_lt_nil _)
      | cons d t =>
          rcases List.cons_lt_cons_iff.1 h with hlt | ⟨rfl, hrest⟩
          · have hbytes := encodeChar_append_lt c.valid d.valid hlt (encode s) (encode t)
            rwa [show Char.ofNat c.val.toNat = c from c.ofNat_toNat,
              show Char.ofNat d.val.toNat = d from d.ofNat_toNat] at hbytes
          · exact List.append_left_lt (ih hrest)

/-- **The order of texts is the order of their bytes.** -/
theorem encode_lt_encode_iff {s t : Text} : encode s < encode t ↔ s < t := by
  constructor
  · intro h
    apply Decidable.byContradiction
    intro hnot
    rcases List.le_iff_lt_or_eq.1 (List.not_lt.1 hnot) with hlt | rfl
    · exact List.lt_asymm h (encode_lt_encode hlt)
    · exact List.lt_irrefl _ h
  · exact encode_lt_encode

end CleanDiff.Utf8
