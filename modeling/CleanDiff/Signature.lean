import CleanDiff.Grammar.Token
import CleanDiff.Text.Blank

/-!
# Signatures

The *signature* of a text is what is left of it when comments and blank
characters are taken out. Two texts with one signature differ by noise only. A
file whose format is unknown has no grammar; nothing in it counts as a comment,
and its signature drops blank characters alone.
-/

namespace CleanDiff

/-- The text without its comments; string literals stay as they are. -/
def Grammar.withoutComments (g : Grammar) (t : Text) : Text :=
  (g.tokens t).flatMap Token.kept

/-- What is left of a text without comments and blank characters. -/
def signature (profile : Option Grammar) (t : Text) : Text :=
  match profile with
  | some g => Text.dropBlanks (g.withoutComments t)
  | none => Text.dropBlanks t

/-- Do the two texts differ by noise only? -/
def sameMeaning (profile : Option Grammar) (a b : Text) : Bool :=
  a == b || signature profile a == signature profile b

/-- Equal texts have equal signatures, so the signature alone decides. -/
theorem sameMeaning_iff {profile : Option Grammar} {a b : Text} :
    sameMeaning profile a b = true ↔ signature profile a = signature profile b := by
  simp only [sameMeaning, Bool.or_eq_true, beq_iff_eq]
  constructor
  · rintro (rfl | h)
    · rfl
    · exact h
  · exact Or.inr

end CleanDiff
