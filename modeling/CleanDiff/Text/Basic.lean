/-!
# Texts and bytes

A *text* is the list of its characters and a *byte string* the list of its
bytes. Every rule of this library that looks inside a file works on these two
types, so each one is a plain recursion over a list. This module holds the
operations on them that know nothing about files or comments: taking a leading
delimiter off, and cutting a text behind the first occurrence of a delimiter.
-/

namespace CleanDiff

/-- A text, as the list of its characters. -/
abbrev Text := List Char

/-- Raw file content, or a file name as the file system stores it. -/
abbrev Bytes := List UInt8

namespace Text

/-- What follows `lead` in a text that begins with it. -/
def after? : Text → Text → Option Text
  | [], t => some t
  | _ :: _, [] => none
  | d :: lead, c :: t => if d = c then after? lead t else none

/-- Cut a text just behind the first occurrence of `close`. -/
def through? (close : Text) : Text → Option (Text × Text)
  | [] => if close = [] then some ([], []) else none
  | c :: t =>
      match after? close (c :: t) with
      | some rest => some (close, rest)
      | none => (through? close t).map fun cut => (c :: cut.1, cut.2)

/-- A text that begins with `lead` is `lead` and what follows it. -/
theorem after?_eq_some_iff {lead t rest : Text} :
    after? lead t = some rest ↔ t = lead ++ rest := by
  induction lead generalizing t with
  | nil => simp [after?]
  | cons d lead ih =>
    cases t with
    | nil => simp [after?]
    | cons c t =>
      by_cases h : d = c
      · subst h; simp [after?, ih]
      · simp [after?, h, Ne.symm h]

/-- Cutting loses nothing. -/
theorem append_of_through? {close t : Text} {cut : Text × Text}
    (h : through? close t = some cut) : cut.1 ++ cut.2 = t := by
  induction t generalizing cut with
  | nil =>
    simp only [through?] at h
    split at h <;> simp at h
    subst h; rfl
  | cons c t ih =>
    simp only [through?] at h
    split at h
    · next rest hrest =>
      cases h
      exact (after?_eq_some_iff.1 hrest).symm
    · obtain ⟨inner, hinner, rfl⟩ := Option.map_eq_some_iff.1 h
      simp [ih hinner]

/-- Is `needle` somewhere in the text? -/
def hasPart (needle t : Text) : Bool := (through? needle t).isSome

end Text

end CleanDiff
