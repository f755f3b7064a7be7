import CleanDiff.Text.Basic

/-!
# Lines

A line is a maximal piece of a text that keeps its terminator: `\n`, `\r\n` or
a `\r` that stands alone. Only the last line may lack one. Joining the lines
gives the text back, so lines can be chosen from two texts and glued together.
-/

namespace CleanDiff.Text

/-- Split a text behind each terminator; an empty text has no line. -/
def lines : Text → List Text
  | [] => []
  | '\r' :: '\n' :: t => ['\r', '\n'] :: lines t
  | c :: t =>
      if c = '\n' ∨ c = '\r' then [c] :: lines t
      else
        match lines t with
        | [] => [[c]]
        | l :: ls => (c :: l) :: ls

/-- The lines of a text concatenate to it. -/
theorem flatten_lines (t : Text) : (lines t).flatten = t := by
  fun_induction lines t with
  | case1 => rfl
  | case2 t ih => simp [ih]
  | case3 c t _ _ ih => simp [ih]
  | case4 c t _ _ hnil ih => simp [hnil] at ih; simp [← ih]
  | case5 c t _ _ l ls hcons ih => simp [hcons] at ih; simp [ih]

end CleanDiff.Text
