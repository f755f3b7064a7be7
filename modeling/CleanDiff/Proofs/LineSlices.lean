import CleanDiff.Proofs.Lines
import CleanDiff.Proofs.Utf8

/-!
# Lines as slices of the bytes

The lines of a text are determined by what lines are: **a text is cut into lines in exactly
one way** (`lines_canonical`), so lines that may follow one another are what their
concatenation is cut into.

They can also be found without decoding the text. `lineSlices` goes through its bytes with
one index at the beginning of the line and one that looks for the end, and answers with
slices. The two indices stand between characters whenever a slice is taken, because a byte
of a terminator is part of no longer character (`Utf8.eq_of_ascii_mem_encodeChar`); so
the slices are the lines, one for one (`lineSlices_encode`).
-/

namespace CleanDiff

/-! ### Slices -/

/-- A part of a byte string, from one index up to another. -/
structure Slice where
  start : Nat
  stop : Nat
  deriving DecidableEq, Repr

namespace Slice

/-- The bytes of a slice. -/
def of (s : Slice) (bytes : Bytes) : Bytes := (bytes.drop s.start).take (s.stop - s.start)

/-- The slices of pieces that stand one behind the other, the first one at an index. -/
def tiles (start : Nat) : List Text → List Slice
  | [] => []
  | piece :: rest =>
      let stop := start + (Utf8.encode piece).length
      ⟨start, stop⟩ :: tiles stop rest

/-- The index lies between two characters of the text, or at an end of it. -/
def IsBoundary (t : Text) (i : Nat) : Prop := ∃ u v, t = u ++ v ∧ (Utf8.encode u).length = i

theorem of_append (front piece behind : Bytes) :
    (⟨front.length, front.length + piece.length⟩ : Slice).of (front ++ (piece ++ behind)) =
      piece := by
  simp [of]

/-- Slices of consecutive pieces hold the pieces. -/
theorem map_of_tiles (front : Text) (pieces : List Text) :
    (tiles (Utf8.encode front).length pieces).map
      (·.of (Utf8.encode (front ++ pieces.flatten))) = pieces.map Utf8.encode := by
  induction pieces generalizing front with
  | nil => rfl
  | cons piece pieces ih =>
      have hstop : (Utf8.encode front).length + (Utf8.encode piece).length =
          (Utf8.encode (front ++ piece)).length := by
        rw [Utf8.encode_append, List.length_append]
      rw [tiles, List.map_cons, List.map_cons, hstop, List.flatten_cons, ← List.append_assoc, ih,
        ← hstop, Utf8.encode_append, Utf8.encode_append, List.append_assoc, of_append]

/-- Pieces of a text begin and end between its characters. -/
theorem isBoundary_of_mem_tiles {front : Text} {pieces : List Text} {s : Slice}
    (h : s ∈ tiles (Utf8.encode front).length pieces) :
    IsBoundary (front ++ pieces.flatten) s.start ∧ IsBoundary (front ++ pieces.flatten) s.stop := by
  induction pieces generalizing front with
  | nil => exact absurd h (by simp [tiles])
  | cons piece pieces ih =>
      have hstop : (Utf8.encode (front ++ piece)).length =
          (Utf8.encode front).length + (Utf8.encode piece).length := by
        rw [Utf8.encode_append, List.length_append]
      rw [List.flatten_cons, ← List.append_assoc]
      rcases List.mem_cons.1 h with rfl | h
      · exact ⟨⟨front, piece ++ pieces.flatten, List.append_assoc .., rfl⟩,
          ⟨front ++ piece, pieces.flatten, rfl, hstop⟩⟩
      · rw [← hstop] at h
        exact ih h

end Slice

namespace Text

/-! ### Going through the bytes -/

def lfByte : UInt8 := 0x0A
def crByte : UInt8 := 0x0D

/-- The slices that the lines of a byte string take up: the line being read begins at
`start`, and the byte at `i` is looked at next. -/
def lineSlices (bytes : Bytes) (start i : Nat) : List Slice :=
  if _h : i < bytes.length then
    if bytes[i] = lfByte then ⟨start, i + 1⟩ :: lineSlices bytes (i + 1) (i + 1)
    else if bytes[i] = crByte then
      -- A `\n` right behind belongs to the same terminator.
      if bytes[i + 1]? = some lfByte then ⟨start, i + 2⟩ :: lineSlices bytes (i + 2) (i + 2)
      else ⟨start, i + 1⟩ :: lineSlices bytes (i + 1) (i + 1)
    else lineSlices bytes start (i + 1)
  else if start < bytes.length then [⟨start, bytes.length⟩]
  else []
termination_by bytes.length - i

variable {front rest : Bytes} {start : Nat}

theorem lineSlices_lf :
    lineSlices (front ++ lfByte :: rest) start front.length =
      ⟨start, front.length + 1⟩ ::
        lineSlices (front ++ lfByte :: rest) (front.length + 1) (front.length + 1) := by
  rw [lineSlices]
  simp

theorem lineSlices_crlf :
    lineSlices (front ++ crByte :: lfByte :: rest) start front.length =
      ⟨start, front.length + 2⟩ ::
        lineSlices (front ++ crByte :: lfByte :: rest) (front.length + 2) (front.length + 2) := by
  have hcr : crByte ≠ lfByte := by decide
  rw [lineSlices]
  simp [hcr]

theorem lineSlices_cr (h : rest.head? ≠ some lfByte) :
    lineSlices (front ++ crByte :: rest) start front.length =
      ⟨start, front.length + 1⟩ ::
        lineSlices (front ++ crByte :: rest) (front.length + 1) (front.length + 1) := by
  have hcr : crByte ≠ lfByte := by decide
  have hnext : (front ++ crByte :: rest)[front.length + 1]? = rest.head? := by
    rw [List.getElem?_append_right (by omega), Nat.add_sub_cancel_left, List.getElem?_cons_succ,
      List.head?_eq_getElem?]
  rw [lineSlices]
  simp [hcr, hnext, h]

/-- Bytes that are in no terminator are passed over. -/
theorem lineSlices_append {piece : Bytes} (hlf : lfByte ∉ piece) (hcr : crByte ∉ piece) :
    lineSlices (front ++ (piece ++ rest)) start front.length =
      lineSlices (front ++ (piece ++ rest)) start (front.length + piece.length) := by
  induction piece generalizing front with
  | nil => rfl
  | cons b piece ih =>
      rw [List.mem_cons, not_or] at hlf hcr
      have hstep := @ih (front ++ [b]) hlf.2 hcr.2
      simp only [List.append_assoc, List.singleton_append, List.length_append,
        List.length_singleton] at hstep
      rw [lineSlices]
      simp [Ne.symm hlf.1, Ne.symm hcr.1, hstep, Nat.add_assoc, Nat.add_comm 1]

theorem lineSlices_end (bytes : Bytes) (start : Nat) :
    lineSlices bytes start bytes.length =
      if start < bytes.length then [⟨start, bytes.length⟩] else [] := by
  rw [lineSlices]
  simp

/-! ### The slices are the lines -/

/-- The bytes of a text without line ends hold no byte of a terminator. -/
theorem Unbroken.not_mem_encode {a : Char} (ha : a.toNat < 0x80) (hbreak : isBreak a = true)
    {t : Text} (h : Unbroken t) : UInt8.ofNat a.toNat ∉ Utf8.encode t := by
  intro hmem
  obtain ⟨c, hc, hbyte⟩ := List.mem_flatMap.1 hmem
  rw [Utf8.eq_of_ascii_mem_encodeChar ha hbyte] at hc
  exact absurd hbreak (by simp [h a hc])

theorem head?_encode_ne_lf {t : Text} (h : t.head? ≠ some '\n') :
    (Utf8.encode t).head? ≠ some lfByte := by
  cases t with
  | nil => simp [Utf8.encode]
  | cons c t =>
      intro hhead
      have hbyte : UInt8.ofNat '\n'.toNat ∈ String.utf8EncodeChar c := by
        have hfirst : (Utf8.encode (c :: t)).head? = (String.utf8EncodeChar c).head? :=
          List.head?_append_of_ne_nil _ (Utf8.encodeChar_ne_nil c)
        exact List.mem_of_head? (hfirst ▸ hhead)
      rw [Utf8.eq_of_ascii_mem_encodeChar (by decide) hbyte] at h
      exact h rfl

/-- The loop takes a line off the bytes, unless it fuses with what follows, or has no
terminator and something follows. -/
theorem lineSlices_isLine {l rest : Text} (hl : IsLine l) (hfuses : ¬ Fuses l rest)
    (hrest : Unbroken l → rest = []) (front : Bytes) :
    lineSlices (front ++ (Utf8.encode l ++ Utf8.encode rest)) front.length front.length =
      ⟨front.length, front.length + (Utf8.encode l).length⟩ ::
        lineSlices (front ++ (Utf8.encode l ++ Utf8.encode rest))
          (front.length + (Utf8.encode l).length) (front.length + (Utf8.encode l).length) := by
  -- Up to its terminator the line is passed over.
  have hskip : ∀ {body : Text} (bytes : Bytes), Unbroken body →
      lineSlices (front ++ (Utf8.encode body ++ bytes)) front.length front.length =
        lineSlices ((front ++ Utf8.encode body) ++ bytes) front.length
          (front ++ Utf8.encode body).length := by
    intro body bytes hbody
    rw [lineSlices_append (hbody.not_mem_encode (a := '\n') (by decide) rfl)
      (hbody.not_mem_encode (a := '\r') (by decide) rfl), List.append_assoc, List.length_append]
  cases hl with
  | @lf body hbody =>
      have hlf : Utf8.encode ['\n'] = [lfByte] := rfl
      rw [Utf8.encode_append, hlf, List.append_assoc, List.singleton_append, hskip _ hbody,
        lineSlices_lf]
      simp [Nat.add_assoc]
  | @crlf body hbody =>
      have hcrlf : Utf8.encode ['\r', '\n'] = [crByte, lfByte] := rfl
      rw [Utf8.encode_append, hcrlf, List.append_assoc, List.cons_append, List.singleton_append,
        hskip _ hbody, lineSlices_crlf]
      simp [Nat.add_assoc]
  | @cr body hbody =>
      have hcr : Utf8.encode ['\r'] = [crByte] := rfl
      have hhead : rest.head? ≠ some '\n' := fun hhead => hfuses ⟨by simp, hhead⟩
      rw [Utf8.encode_append, hcr, List.append_assoc, List.singleton_append, hskip _ hbody,
        lineSlices_cr (head?_encode_ne_lf hhead)]
      simp [Nat.add_assoc]
  | unterminated hbody hne =>
      have hpos := List.length_pos_iff.2 (Utf8.encode_ne_nil hne)
      have hbytes : front.length + (Utf8.encode l).length = (front ++ Utf8.encode l).length :=
        List.length_append.symm
      have hnil : Utf8.encode [] = [] := rfl
      rw [hrest hbody, hskip _ hbody, hnil, List.append_nil, List.append_nil, hbytes,
        lineSlices_end, lineSlices_end, if_pos (by omega), if_neg (Nat.lt_irrefl _)]

/-- Lines as a text has them: all but the last are terminated, and no two fuse. -/
structure Canonical (ls : List Text) : Prop where
  isLine : ∀ l ∈ ls, IsLine l
  follows : ls.IsChain Follows

theorem Canonical.tail {l : Text} {ls : List Text} (h : Canonical (l :: ls)) : Canonical ls :=
  ⟨(List.forall_mem_cons.1 h.isLine).2, h.follows.tail⟩

/-- What follows the first line does not fuse with it. -/
theorem Canonical.not_fuses_flatten {l : Text} {ls : List Text} (h : Canonical (l :: ls)) :
    ¬ Fuses l ls.flatten := by
  cases ls with
  | nil => simp [Fuses]
  | cons next ls =>
      have hne : next ≠ [] := (h.isLine next (by simp)).ne_nil
      have hhead : (next :: ls).flatten.head? = next.head? := by
        rw [List.flatten_cons, List.head?_append_of_ne_nil _ hne]
      unfold Fuses
      rw [hhead]
      exact (List.isChain_cons_cons.1 h.follows).1.2

/-- Only the last line lacks a terminator. -/
theorem Canonical.eq_nil_of_unbroken {l : Text} {ls : List Text} (h : Canonical (l :: ls))
    (hl : Unbroken l) : ls = [] := by
  cases ls with
  | nil => rfl
  | cons next ls =>
      exact absurd (List.isChain_cons_cons.1 h.follows).1.1 (not_terminated_of_unbroken hl)

/-- The loop takes one line after the other. -/
theorem lineSlices_canonical {ls : List Text} (h : Canonical ls) (front : Text) :
    lineSlices (Utf8.encode (front ++ ls.flatten)) (Utf8.encode front).length
      (Utf8.encode front).length = Slice.tiles (Utf8.encode front).length ls := by
  induction ls generalizing front with
  | nil =>
      rw [List.flatten_nil, List.append_nil, lineSlices_end, if_neg (Nat.lt_irrefl _), Slice.tiles]
  | cons l ls ih =>
      have hline := lineSlices_isLine (h.isLine l List.mem_cons_self) h.not_fuses_flatten
        (fun hl => by rw [h.eq_nil_of_unbroken hl, List.flatten_nil]) (Utf8.encode front)
      have hrest := ih h.tail (front ++ l)
      simp only [Utf8.encode_append, List.length_append, List.append_assoc] at hrest
      rw [List.flatten_cons, Utf8.encode_append, Utf8.encode_append, hline, hrest, Slice.tiles]

theorem canonical_lines (t : Text) : Canonical (lines t) :=
  ⟨fun _ h => isLine_of_mem_lines h, isChain_lines t⟩

theorem Canonical.lines_flatten {ls : List Text} (h : Canonical ls) : lines ls.flatten = ls := by
  have hterminated := h.follows.imp fun _ _ hfollows => hfollows.1
  have hseparate := h.follows.imp fun _ _ hfollows => hfollows.2
  rw [lines_flatten_eq_fuse h.isLine hterminated, fuse_eq_self hseparate]

/-- The slices that the loop takes from the bytes of a text are those of its lines. -/
theorem lineSlices_encode (t : Text) :
    lineSlices (Utf8.encode t) 0 0 = Slice.tiles 0 (lines t) := by
  have hslices := lineSlices_canonical (canonical_lines t) []
  rwa [List.nil_append, flatten_lines] at hslices

/-- **A text is cut into lines in exactly one way**, and lines that can follow one another are
what their concatenation is cut into. Going through the bytes of the text finds the same
lines, and every slice it takes begins and ends between two characters. -/
theorem lines_canonical (t : Text) :
    (∀ ls, Canonical ls ∧ ls.flatten = t ↔ ls = lines t) ∧
      (∀ ls, Canonical ls ↔ lines ls.flatten = ls) ∧
      (lineSlices (Utf8.encode t) 0 0).map (·.of (Utf8.encode t)) =
        (lines t).map Utf8.encode ∧
      ∀ s ∈ lineSlices (Utf8.encode t) 0 0,
        Slice.IsBoundary t s.start ∧ Slice.IsBoundary t s.stop := by
  refine ⟨fun ls => ⟨?_, ?_⟩, fun ls => ⟨Canonical.lines_flatten, ?_⟩, ?_, ?_⟩
  · rintro ⟨hcanonical, rfl⟩
    exact hcanonical.lines_flatten.symm
  · rintro rfl
    exact ⟨canonical_lines t, flatten_lines t⟩
  · intro hlines
    rw [← hlines]
    exact canonical_lines _
  · have hslices := Slice.map_of_tiles [] (lines t)
    rw [List.nil_append, flatten_lines] at hslices
    rw [lineSlices_encode]
    exact hslices
  · intro s hs
    rw [lineSlices_encode] at hs
    have htile : s ∈ Slice.tiles (Utf8.encode []).length (lines t) := hs
    have hboundary := Slice.isBoundary_of_mem_tiles htile
    rwa [List.nil_append, flatten_lines] at hboundary

/-- The slice of a line between characters of two and three bytes. -/
theorem lines_canonical_of_longCharacters :
    (⟨3, 8⟩ : Slice) ∈ lineSlices (Utf8.encode "é\r→\r\nx".toList) 0 0 ∧
      Slice.IsBoundary "é\r→\r\nx".toList 3 ∧ Slice.IsBoundary "é\r→\r\nx".toList 8 := by
  have hmem : (⟨3, 8⟩ : Slice) ∈ lineSlices (Utf8.encode "é\r→\r\nx".toList) 0 0 := by
    rw [lineSlices_encode]
    decide
  exact ⟨hmem, (lines_canonical _).2.2.2 _ hmem⟩

end Text

end CleanDiff
