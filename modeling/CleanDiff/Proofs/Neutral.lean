import CleanDiff.Proofs.TokenCut

/-!
# Neutral texts

A text is *neutral* when it leaves the reader of the text behind it where it began:
nothing is open at its end. Whatever follows a neutral text then has the tokens it
has alone, so **comments can be taken out of the two apart**
(`withoutComments_append_of_neutral`) and signatures of neutral lines concatenate
(`signature_flatten`): lines that come from two files can be judged one by one.

The one trap is the wrapper `{/*`, which is a comment only if its closer follows
somewhere. A text in which such a wrapper is not closed reads the block comment
inside it, and a closer behind the text would change that; this is why a neutral
text must not hold a block comment directly behind a plain brace.
-/

namespace CleanDiff

namespace Token

/-- Is the token a single plain character? -/
def isPlain : Token → Bool
  | .plain _ => true
  | _ => false

/-- Is the token a comment that begins with `/*`? -/
def isBlockComment : Token → Bool
  | .comment ('/' :: '*' :: _) => true
  | _ => false

end Token

namespace Grammar

/-- Nothing is open at the end of a text: it ends with a blank, no literal and no
comment reaches its end, and no wrapper in it waits for its closer. -/
structure Neutral (g : Grammar) (u : Text) : Prop where
  endsBlank : ∀ c ∈ u.getLast?, isBlank c = true
  endsPlain : ∀ tok ∈ (g.tokens u).getLast?, tok.isPlain = true
  unwrapped : g = .jsx →
    (g.tokens u).IsChain fun tok next => ¬ (tok = .plain '{' ∧ next.isBlockComment = true)

instance (g : Grammar) (u : Text) : Decidable (g.Neutral u) :=
  decidable_of_iff
    (u.getLast?.all isBlank = true ∧ (g.tokens u).getLast?.all Token.isPlain = true ∧
      (g = .jsx →
        (g.tokens u).IsChain fun (tok next : Token) =>
          ¬ (tok = .plain '{' ∧ next.isBlockComment = true)))
    ⟨fun h => ⟨(Option.all_eq_true _ _).1 h.1, (Option.all_eq_true _ _).1 h.2.1, h.2.2⟩,
      fun h => ⟨(Option.all_eq_true _ _).2 h.1, (Option.all_eq_true _ _).2 h.2, h.3⟩⟩

theorem not_isPlain_of_tokenAt? {g : Grammar} {t : Text} {found : Token × Text}
    (h : g.tokenAt? t = some found) : found.1.isPlain = false := by
  rw [tokenAt?_eq] at h
  obtain ⟨m, -, hread⟩ := List.exists_of_findSome?_eq_some h
  obtain ⟨body, a, -, -, htok⟩ := Mark.read?_eq_some_iff.1 hread
  rw [htok]
  cases m <;> rfl

/-- What is left of a neutral text behind its first token is neutral. -/
theorem Neutral.tail {g : Grammar} {u rest : Text} {tok : Token} (h : g.Neutral u)
    (hu : tok.text ++ rest = u) (htokens : g.tokens u = tok :: g.tokens rest) :
    g.Neutral rest := by
  by_cases hrest : rest = []
  · subst hrest
    exact ⟨by simp, by simp, by simp⟩
  · have hne : g.tokens rest ≠ [] := fun hnil => hrest (tokens_eq_nil_iff.1 hnil)
    refine ⟨?_, ?_, ?_⟩
    · intro c hc
      apply h.endsBlank
      rw [← hu, List.getLast?_append_of_ne_nil _ hrest]
      exact hc
    · intro last hlast
      apply h.endsPlain
      rw [htokens, ← List.singleton_append, List.getLast?_append_of_ne_nil _ hne]
      exact hlast
    · intro hg
      have hchain := h.unwrapped hg
      rw [htokens] at hchain
      exact hchain.tail

/-! ### A wrapper that is not closed -/

/-- A mark whose opener stands there and which reads nothing is a wrapper without its
closer. -/
theorem wrapper_of_read?_eq_none {g : Grammar} {m : Mark} {u body : Text} (hm : m ∈ g.marks)
    (hopen : Text.after? m.opener u = some body) (hread : m.read? u = none) :
    g = .jsx ∧ u = '{' :: '/' :: '*' :: body ∧ Text.through? ['*', '/', '}'] body = none := by
  simp only [Mark.read?, hopen, Option.bind_some, Option.map_eq_none_iff] at hread
  have hclose : m.mustClose = true := by
    by_contra hfalse
    obtain ⟨cut, hcut⟩ := Mark.cut?_eq_some (Bool.not_eq_true _ ▸ hfalse) body
    rw [hcut] at hread
    exact absurd hread (by simp)
  obtain ⟨rfl, rfl⟩ := eq_wrapper_of_mustClose hm hclose
  refine ⟨rfl, Text.after?_eq_some_iff.1 hopen, ?_⟩
  simpa [Mark.cut?] using hread

/-- A wrapper without its closer is a plain brace and the block comment behind it. -/
theorem tokens_of_open_wrapper {body : Text} (h : Text.through? ['*', '/', '}'] body = none) :
    jsx.tokenAt? ('{' :: '/' :: '*' :: body) = none ∧
      ∃ tok rest, jsx.tokens ('/' :: '*' :: body) = tok :: rest ∧ tok.isBlockComment = true := by
  constructor
  · simp [tokenAt?, quotes, blocks, lineMarkers, Quote.literal?, Quote.written, Block.comment?,
      lineComment?, Text.after?, h]
  · have hread : ∃ found, jsx.tokenAt? ('/' :: '*' :: body) = some found ∧
        found.1.isBlockComment = true := by
      cases hcut : Text.through? ['*', '/'] body <;>
        simp [tokenAt?, quotes, blocks, lineMarkers, Quote.literal?, Quote.written,
          Block.comment?, lineComment?, Text.after?, hcut, Token.isBlockComment]
    obtain ⟨found, hfound, hblock⟩ := hread
    exact ⟨found.1, jsx.tokens found.2, tokens_of_tokenAt? hfound, hblock⟩

/-- In a neutral text every mark whose opener stands there reads a token. -/
theorem Neutral.after?_eq_none {g : Grammar} {m : Mark} {u : Text} (h : g.Neutral u)
    (hm : m ∈ g.marks) (hread : m.read? u = none) : Text.after? m.opener u = none := by
  cases hopen : Text.after? m.opener u with
  | none => rfl
  | some body =>
      obtain ⟨rfl, rfl, hclose⟩ := wrapper_of_read?_eq_none hm hopen hread
      obtain ⟨hnone, tok, rest, htokens, hblock⟩ := tokens_of_open_wrapper hclose
      have hchain := h.unwrapped rfl
      rw [tokens_of_tokenAt?_eq_none hnone, htokens, List.isChain_cons_cons] at hchain
      exact absurd ⟨rfl, hblock⟩ hchain.1

theorem Neutral.read?_append_eq_none {g : Grammar} {m : Mark} {u : Text} (h : g.Neutral u)
    (hne : u ≠ []) (hm : m ∈ g.marks) (hread : m.read? u = none) (v : Text) :
    m.read? (u ++ v) = none := by
  have hafter := Text.after?_append_eq_none (not_isBlank_opener hm) hne h.endsBlank
    (h.after?_eq_none hm hread) v
  simp [Mark.read?, hafter]

/-! ### Text behind a neutral text -/

/-- The tokens of a neutral text stay what they are when text follows. -/
theorem Neutral.tokens_append {g : Grammar} {u : Text} (h : g.Neutral u) (v : Text) :
    g.tokens (u ++ v) = g.tokens u ++ g.tokens v := by
  fun_induction tokens g u with
  | case1 => rfl
  | case2 c t found hfound _ ih =>
      obtain ⟨tok, rest⟩ := found
      have htokens := tokens_of_tokenAt? hfound
      -- A literal or comment at the end of the text would not be neutral.
      have hrest : rest ≠ [] := by
        rintro rfl
        have hplain := h.endsPlain tok (by rw [htokens]; simp)
        rw [not_isPlain_of_tokenAt? hfound] at hplain
        exact absurd hplain (by simp)
      -- The mark that read the token reads it again, and still no mark before it does.
      have hread : g.tokenAt? (c :: t ++ v) = some (tok, rest ++ v) := by
        rw [tokenAt?_eq, List.findSome?_eq_some_iff] at hfound ⊢
        obtain ⟨before, m, after, hmarks, hm, hbefore⟩ := hfound
        refine ⟨before, m, after, hmarks, Mark.read?_append hm hrest v, ?_⟩
        intro m' hm'
        exact h.read?_append_eq_none (by simp) (hmarks ▸ List.mem_append_left _ hm')
          (hbefore m' hm') v
      rw [tokens_of_tokenAt? hread, ih (h.tail (begins_of_tokenAt? hfound).1 htokens)]
      rfl
  | case3 c t hnone ih =>
      have hread : g.tokenAt? (c :: t ++ v) = none := by
        rw [tokenAt?_eq, List.findSome?_eq_none_iff] at hnone ⊢
        intro m hm
        exact h.read?_append_eq_none (by simp) hm (hnone m hm) v
      rw [List.cons_append] at hread ⊢
      rw [tokens_of_tokenAt?_eq_none hread,
        ih (h.tail rfl (tokens_of_tokenAt?_eq_none hnone))]
      rfl

/-- No token lies across the end of a neutral text, whatever follows. -/
theorem Neutral.cutsAt {g : Grammar} {u : Text} (h : g.Neutral u) (v : Text) : g.CutsAt u v :=
  cutsAt_iff.2 (h.tokens_append v)

/-- **Taking comments out is compositional behind a neutral text**, whatever follows it. -/
theorem withoutComments_append_of_neutral {g : Grammar} {u : Text} (h : g.Neutral u) (v : Text) :
    g.withoutComments (u ++ v) = g.withoutComments u ++ g.withoutComments v :=
  (h.cutsAt v).withoutComments_append

/-- A closed wrapper, a block comment and a literal that holds a closer are read as before
when what follows begins with the closer of a wrapper. -/
theorem withoutComments_append_of_closed_wrapper :
    jsx.Neutral "\x7b/* a */\x7d /* b */ '*/\x7d'\n".toList ∧
    jsx.withoutComments ("\x7b/* a */\x7d /* b */ '*/\x7d'\n".toList ++ "*/\x7d \x7b/* c".toList) =
      "  '*/\x7d'\n".toList ++ "*/\x7d \x7b".toList := by
  have hneutral : jsx.Neutral "\x7b/* a */\x7d /* b */ '*/\x7d'\n".toList := by decide +kernel
  refine ⟨hneutral, (withoutComments_append_of_neutral hneutral _).trans ?_⟩
  decide +kernel

/-- An open wrapper is why a block comment behind a plain brace is not neutral: a closer that
comes later makes the brace a part of the comment. -/
example :
    jsx.withoutComments ("\x7b/* a */ b\n".toList ++ "*/\x7d".toList) ≠
      jsx.withoutComments "\x7b/* a */ b\n".toList ++ jsx.withoutComments "*/\x7d".toList := by
  decide +kernel

end Grammar

/-! ### Signatures -/

theorem signature_append {profile : Option Grammar} {u v : Text}
    (h : ∀ g ∈ profile, g.CutsAt u v) :
    signature profile (u ++ v) = signature profile u ++ signature profile v := by
  cases profile with
  | none => exact Text.dropBlanks_append u v
  | some g =>
      simp only [signature, (h g rfl).withoutComments_append, Text.dropBlanks_append]

theorem signature_nil (profile : Option Grammar) : signature profile [] = [] := by
  cases profile with
  | none => rfl
  | some g => simp [signature, Grammar.withoutComments, Text.dropBlanks]

/-- The signature of neutral lines is made of the signatures of the lines. -/
theorem signature_flatten {profile : Option Grammar} {lines : List Text}
    (h : ∀ l ∈ lines, ∀ g ∈ profile, g.Neutral l) :
    signature profile lines.flatten = lines.flatMap (signature profile) := by
  induction lines with
  | nil => exact signature_nil profile
  | cons l lines ih =>
      have hcut : ∀ g ∈ profile, g.CutsAt l lines.flatten :=
        fun g hg => (h l List.mem_cons_self g hg).cutsAt _
      rw [List.flatten_cons, signature_append hcut, List.flatMap_cons,
        ih fun l' hl' => h l' (List.mem_cons_of_mem l hl')]

end CleanDiff
