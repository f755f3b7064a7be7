import CleanDiff.Proofs.BlockEnd
import CleanDiff.Proofs.LineSlices

/-!
# Tokens as slices of the bytes

The literals and comments of a text can be given by the slices of its bytes that they take
up, and a text without its comments by copying what lies between the slices. **Nothing is
lost and nothing is taken twice on the way** (`placed_tile`): the slices are not empty, each
ends before the next begins, all of them begin and end between two characters, and copying
the literals as well as the gaps gives exactly the text without its comments.

So taking comments out only deletes, and where no comment is opened it deletes nothing.
Both are read off the tokens (`kept_sublist_text`, `exists_opener_of_comment`).
-/

namespace CleanDiff

namespace Token

/-- A literal or comment, with the bytes that it takes up. -/
structure Placed where
  token : Token
  slice : Slice
  deriving DecidableEq, Repr

/-- The literals and comments among tokens that stand one behind the other, the first one
at an index. -/
def place (start : Nat) : List Token → List Placed
  | [] => []
  | tok :: rest =>
      let stop := start + (Utf8.encode tok.text).length
      if tok.isPlain then place stop rest else ⟨tok, ⟨start, stop⟩⟩ :: place stop rest

/-- Is the token a literal? -/
def isLiteral : Token → Bool
  | .literal _ => true
  | _ => false

/-- Copy the bytes from an index on, but of the placed tokens only those to be kept. -/
def copyFrom (keep : Token → Bool) (bytes : Bytes) (last : Nat) : List Placed → Bytes
  | [] => bytes.drop last
  | p :: rest =>
      (⟨last, p.slice.start⟩ : Slice).of bytes ++
        (if keep p.token then p.slice.of bytes else []) ++ copyFrom keep bytes p.slice.stop rest

variable {front : Text} {start : Nat} {tok : Token} {toks : List Token} {p : Placed}

/-! ### Where placed tokens stand -/

theorem mem_place_cons (h : p ∈ place start (tok :: toks)) :
    p ∈ place (start + (Utf8.encode tok.text).length) toks ∨
      tok.isPlain = false ∧ p = ⟨tok, ⟨start, start + (Utf8.encode tok.text).length⟩⟩ := by
  simp only [place] at h
  split at h
  · exact .inl h
  · next hplain =>
    rcases List.mem_cons.1 h with h | h
    · exact .inr ⟨by simpa using hplain, h⟩
    · exact .inl h

/-- A placed token cuts the text in front of it and behind it. -/
theorem exists_split_of_mem_place (h : p ∈ place (Utf8.encode front).length toks) :
    p.token ∈ toks ∧ p.token.isPlain = false ∧
      ∃ u v, front ++ toks.flatMap Token.text = u ++ (p.token.text ++ v) ∧
        p.slice = ⟨(Utf8.encode u).length,
          (Utf8.encode u).length + (Utf8.encode p.token.text).length⟩ := by
  induction toks generalizing front with
  | nil => exact absurd h (by simp [place])
  | cons tok toks ih =>
      rcases mem_place_cons h with h | ⟨hplain, rfl⟩
      · rw [← List.length_append, ← Utf8.encode_append] at h
        obtain ⟨hmem, hplain, u, v, htext, hslice⟩ := ih h
        refine ⟨List.mem_cons_of_mem tok hmem, hplain, u, v, ?_, hslice⟩
        rw [List.flatMap_cons, ← List.append_assoc, htext]
      · exact ⟨List.mem_cons_self, hplain, front, toks.flatMap Token.text, rfl, rfl⟩

theorem le_start_of_mem_place (h : p ∈ place start toks) : start ≤ p.slice.start := by
  induction toks generalizing start with
  | nil => exact absurd h (by simp [place])
  | cons tok toks ih =>
      rcases mem_place_cons h with h | ⟨-, rfl⟩
      · exact Nat.le_trans (Nat.le_add_right _ _) (ih h)
      · exact Nat.le_refl _

theorem pairwise_place (start : Nat) (toks : List Token) :
    (place start toks).Pairwise fun p q => p.slice.stop ≤ q.slice.start := by
  induction toks generalizing start with
  | nil => exact .nil
  | cons tok toks ih =>
      simp only [place]
      split
      · exact ih _
      · exact List.pairwise_cons.2 ⟨fun q hq => le_start_of_mem_place hq, ih _⟩

/-! ### Copying what lies between -/

/-- Copying goes on behind a gap: the characters of the gap, and of the tokens those that are
plain or to be kept. -/
theorem copyFrom_place (keep : Token → Bool) (front gap : Text) (toks : List Token) :
    copyFrom keep (Utf8.encode (front ++ (gap ++ toks.flatMap Token.text)))
        (Utf8.encode front).length (place (Utf8.encode (front ++ gap)).length toks) =
      Utf8.encode (gap ++ toks.flatMap fun tok =>
        if tok.isPlain || keep tok then tok.text else []) := by
  induction toks generalizing front gap with
  | nil => simp [place, copyFrom, Utf8.encode_append]
  | cons tok toks ih =>
      have hstop : (Utf8.encode (front ++ gap)).length + (Utf8.encode tok.text).length =
          (Utf8.encode (front ++ gap ++ tok.text)).length := by
        rw [Utf8.encode_append (front ++ gap), List.length_append]
      simp only [place, hstop, List.flatMap_cons]
      by_cases hplain : tok.isPlain = true
      · -- A plain character makes the gap longer.
        have hgap := ih front (gap ++ tok.text)
        simp only [List.append_assoc] at hgap ⊢
        simp [hplain, hgap]
      · have hrest := ih (front ++ gap ++ tok.text) []
        have hbefore := Slice.of_append (Utf8.encode front) (Utf8.encode gap)
          (Utf8.encode (tok.text ++ toks.flatMap Token.text))
        have htoken := Slice.of_append (Utf8.encode (front ++ gap)) (Utf8.encode tok.text)
          (Utf8.encode (toks.flatMap Token.text))
        rw [← List.length_append] at hbefore htoken
        simp only [← Utf8.encode_append, List.append_assoc, List.append_nil, List.nil_append]
          at hbefore htoken hrest
        rw [if_neg hplain, copyFrom]
        simp only [List.append_assoc, hbefore, htoken, hrest]
        by_cases hkeep : keep tok = true <;> simp [hplain, hkeep, Utf8.encode_append]

theorem kept_eq (tok : Token) :
    (if tok.isPlain || tok.isLiteral then tok.text else []) = tok.kept := by
  cases tok <;> rfl

theorem kept_sublist_text (toks : List Token) :
    (toks.flatMap Token.kept).Sublist (toks.flatMap Token.text) := by
  induction toks with
  | nil => exact .slnil
  | cons tok toks ih =>
      have htok : tok.kept.Sublist tok.text := by
        cases tok with
        | plain c => exact .refl _
        | literal written => exact .refl _
        | comment written => exact List.nil_sublist _
      rw [List.flatMap_cons, List.flatMap_cons]
      exact htok.append ih

end Token

namespace Grammar

variable {g : Grammar} {t : Text}

/-- The literals and comments of a text, with the bytes that they take up. -/
def placed (g : Grammar) (t : Text) : List Token.Placed := Token.place 0 (g.tokens t)

/-- What opens a comment. -/
def commentOpeners (g : Grammar) : List Text := g.blocks.map Block.opener ++ g.lineMarkers

theorem text_ne_nil_of_mem_tokens {tok : Token} (h : tok ∈ g.tokens t) : tok.text ≠ [] := by
  fun_induction tokens g t with
  | case1 => exact absurd h (by simp)
  | case2 c rest found hread _ ih =>
      rcases List.mem_cons.1 h with rfl | h
      · exact (begins_of_tokenAt? hread).2
      · exact ih h
  | case3 c rest _ ih =>
      rcases List.mem_cons.1 h with rfl | h
      · simp [Token.text]
      · exact ih h

/-- A comment stands in the text with its opener. -/
theorem exists_opener_of_comment {w : Text} (h : .comment w ∈ g.tokens t) :
    ∃ opener ∈ g.commentOpeners, opener <:+: t := by
  obtain ⟨before, after, htokens⟩ := List.append_of_mem h
  have hread := (tokenAt?_of_tokens htokens).1
  rw [tokenAt?_eq] at hread
  obtain ⟨m, hm, hread⟩ := List.exists_of_findSome?_eq_some hread
  obtain ⟨_, a, -, -, htoken⟩ := Mark.read?_eq_some_iff.1 hread
  have ht : before.flatMap Token.text ++ (w ++ after.flatMap Token.text) = t := by
    rw [← g.tokens_flatten t, htokens, List.flatMap_append, List.flatMap_cons]
    rfl
  have hinfix : ∀ opener, w = opener ++ a → opener <:+: t := by
    rintro opener rfl
    exact ⟨before.flatMap Token.text, a ++ after.flatMap Token.text, by
      rw [← ht, List.append_assoc, List.append_assoc]⟩
  cases m with
  | quote q => exact absurd htoken (by simp [Mark.token])
  | block b =>
      have hb : b ∈ g.blocks := by simpa [marks] using hm
      exact ⟨b.opener, List.mem_append_left _ (List.mem_map_of_mem hb),
        hinfix _ (Token.comment.inj htoken)⟩
  | line marker =>
      have hmarker : marker ∈ g.lineMarkers := by simpa [marks] using hm
      exact ⟨marker, List.mem_append_right _ hmarker, hinfix _ (Token.comment.inj htoken)⟩

theorem withoutComments_sublist (g : Grammar) (t : Text) : (g.withoutComments t).Sublist t := by
  have hsublist := Token.kept_sublist_text (g.tokens t)
  rwa [tokens_flatten] at hsublist

/-- Without an opener there is no comment to take out. -/
theorem withoutComments_eq_self (h : ∀ opener ∈ g.commentOpeners, ¬ opener <:+: t) :
    g.withoutComments t = t := by
  have hkept : ∀ tok ∈ g.tokens t, tok.kept = tok.text := by
    intro tok htok
    cases tok with
    | plain c => rfl
    | literal written => rfl
    | comment written =>
        obtain ⟨opener, hopener, hinfix⟩ := exists_opener_of_comment htok
        exact absurd hinfix (h opener hopener)
  rw [withoutComments, List.flatMap_congr hkept, tokens_flatten]

theorem copyFrom_placed (keep : Token → Bool) (g : Grammar) (t : Text) :
    Token.copyFrom keep (Utf8.encode t) 0 (g.placed t) =
      Utf8.encode ((g.tokens t).flatMap fun tok =>
        if tok.isPlain || keep tok then tok.text else []) := by
  have hcopy := Token.copyFrom_place keep [] [] (g.tokens t)
  simp only [List.nil_append, tokens_flatten] at hcopy
  exact hcopy

/-- **The literals and comments of a text tile it, with the gaps between them.** They are not
empty, none begins before another one ends, and each stands between two characters. Copying
all of them and the gaps gives the text; copying all but the comments gives the text without
comments, so nothing but comments is deleted from it, nor from its signature, and nothing at
all where no comment is opened. -/
theorem placed_tile (g : Grammar) (t : Text) :
    (∀ p ∈ g.placed t, p.token.isPlain = false ∧ p.slice.start < p.slice.stop ∧
      p.slice.of (Utf8.encode t) = Utf8.encode p.token.text ∧
      Slice.IsBoundary t p.slice.start ∧ Slice.IsBoundary t p.slice.stop) ∧
    (g.placed t).Pairwise (fun p q => p.slice.stop ≤ q.slice.start) ∧
    Token.copyFrom (fun _ => true) (Utf8.encode t) 0 (g.placed t) = Utf8.encode t ∧
    Token.copyFrom Token.isLiteral (Utf8.encode t) 0 (g.placed t) =
      Utf8.encode (g.withoutComments t) ∧
    (g.withoutComments t).Sublist t ∧
    (signature (some g) t).Sublist (signature none t) ∧
    ((∀ opener ∈ g.commentOpeners, ¬ opener <:+: t) → g.withoutComments t = t) := by
  refine ⟨?_, Token.pairwise_place 0 _, ?_, ?_, g.withoutComments_sublist t, ?_,
    withoutComments_eq_self⟩
  · intro p hp
    have hplace : p ∈ Token.place (Utf8.encode []).length (g.tokens t) := hp
    obtain ⟨hmem, hplain, u, v, htext, hslice⟩ := Token.exists_split_of_mem_place hplace
    rw [List.nil_append, tokens_flatten] at htext
    have hpos := List.length_pos_iff.2 (Utf8.encode_ne_nil (text_ne_nil_of_mem_tokens hmem))
    rw [hslice]
    refine ⟨hplain, by simp only; omega, ?_, ⟨u, p.token.text ++ v, htext, rfl⟩,
      ⟨u ++ p.token.text, v, by rw [htext, List.append_assoc], ?_⟩⟩
    · rw [htext, Utf8.encode_append, Utf8.encode_append, Slice.of_append]
    · rw [Utf8.encode_append, List.length_append]
  · rw [copyFrom_placed]
    simp [tokens_flatten]
  · rw [copyFrom_placed]
    simp only [Token.kept_eq]
    rfl
  · exact (g.withoutComments_sublist t).filter _

/-- A literal with a long character in it behind a comment closer, and no opener. -/
theorem placed_tile_of_stray_closer :
    (⟨.literal "'→/'".toList, ⟨3, 9⟩⟩ : Token.Placed) ∈ cStyle.placed "*/ '→/'/ é".toList ∧
      Slice.IsBoundary "*/ '→/'/ é".toList 3 ∧ Slice.IsBoundary "*/ '→/'/ é".toList 9 ∧
      (∀ opener ∈ cStyle.commentOpeners, ¬ opener <:+: "*/ '→/'/ é".toList) ∧
      cStyle.withoutComments "*/ '→/'/ é".toList = "*/ '→/'/ é".toList := by
  have hmem : (⟨.literal "'→/'".toList, ⟨3, 9⟩⟩ : Token.Placed) ∈
      cStyle.placed "*/ '→/'/ é".toList := by decide +kernel
  have hopeners : ∀ opener ∈ cStyle.commentOpeners, ¬ opener <:+: "*/ '→/'/ é".toList := by
    decide
  obtain ⟨hplaced, -, -, -, -, -, hself⟩ := placed_tile cStyle "*/ '→/'/ é".toList
  obtain ⟨-, -, -, hstart, hstop⟩ := hplaced _ hmem
  exact ⟨hmem, hstart, hstop, hopeners, hself hopeners⟩

end Grammar

end CleanDiff
