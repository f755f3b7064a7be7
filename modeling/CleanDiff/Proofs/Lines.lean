import CleanDiff.Text.Line
import Mathlib.Data.List.Chain

/-!
# Lines put together again

A text is cut behind its terminators, so some lines that are put together are cut at the
same places again, with one exception: a line that ends with a lone `\r` and a line that
begins with `\n` *fuse* into one, because `\r\n` is a single terminator.

* `isLine_of_mem_lines` and `isChain_lines`: the lines of a text are lines, all of them but
  the last are terminated, and none fuses with the next.
* `lines_flatten_eq_fuse`: lines of which all but the last are terminated, **put together
  and cut again, are the same lines with those fused that meet so**. No line is ever split.
-/

namespace CleanDiff.Text

/-! ### Lines and how they follow one another -/

/-- Does the character end a line? -/
def isBreak (c : Char) : Bool := c = '\n' || c = '\r'

/-- The text holds no line end. -/
def Unbroken (t : Text) : Prop := ∀ c ∈ t, isBreak c = false

/-- A line: a text without line ends and a terminator behind it, or one that is not empty
and has none. -/
inductive IsLine : Text → Prop
  | lf {body : Text} (h : Unbroken body) : IsLine (body ++ ['\n'])
  | crlf {body : Text} (h : Unbroken body) : IsLine (body ++ ['\r', '\n'])
  | cr {body : Text} (h : Unbroken body) : IsLine (body ++ ['\r'])
  | unterminated {body : Text} (h : Unbroken body) (hne : body ≠ []) : IsLine body

/-- Does the line end with a terminator? -/
def Terminated (l : Text) : Prop := ∃ c ∈ l.getLast?, isBreak c = true

/-- Do two lines become one when they are put together? -/
def Fuses (a b : Text) : Prop := a.getLast? = some '\r' ∧ b.head? = some '\n'

instance (a b : Text) : Decidable (Fuses a b) := inferInstanceAs (Decidable (_ ∧ _))

/-- One line can stand behind another: that one is terminated, and they do not fuse. -/
def Follows (a b : Text) : Prop := Terminated a ∧ ¬ Fuses a b

/-- Some lines, with those that meet and fuse made one. -/
def fuse : List Text → List Text
  | a :: b :: rest => if Fuses a b then (a ++ b) :: fuse rest else a :: fuse (b :: rest)
  | ls => ls

theorem IsLine.ne_nil {l : Text} (h : IsLine l) : l ≠ [] := by
  cases h with
  | lf | crlf | cr => simp
  | unterminated _ hne => exact hne

theorem unbroken_cons {c : Char} {t : Text} :
    Unbroken (c :: t) ↔ isBreak c = false ∧ Unbroken t := by
  simp [Unbroken]

theorem IsLine.cons {c : Char} (hc : isBreak c = false) {l : Text} (h : IsLine l) :
    IsLine (c :: l) := by
  cases h with
  | lf h => exact .lf (unbroken_cons.2 ⟨hc, h⟩)
  | crlf h => exact .crlf (unbroken_cons.2 ⟨hc, h⟩)
  | cr h => exact .cr (unbroken_cons.2 ⟨hc, h⟩)
  | unterminated h _ => exact .unterminated (unbroken_cons.2 ⟨hc, h⟩) (by simp)

/-! ### Cutting a text behind its first line -/

theorem lines_lf (t : Text) : lines ('\n' :: t) = ['\n'] :: lines t := by
  rw [lines] <;> simp

theorem lines_crlf (t : Text) : lines ('\r' :: '\n' :: t) = ['\r', '\n'] :: lines t := by
  rw [lines]

theorem lines_cr {t : Text} (h : t.head? ≠ some '\n') :
    lines ('\r' :: t) = ['\r'] :: lines t := by
  rw [lines]
  · simp
  · rintro t' - rfl
    exact h rfl

theorem lines_cons {c : Char} (hc : isBreak c = false) {t l : Text} {ls : List Text}
    (h : lines t = l :: ls) : lines (c :: t) = (c :: l) :: ls := by
  have hbreak : c ≠ '\n' ∧ c ≠ '\r' := by simpa [isBreak] using hc
  rw [lines]
  · simp [h, hbreak.1, hbreak.2]
  · exact fun t' hcr _ => hbreak.2 hcr

theorem lines_unbroken_append {body : Text} (hbody : Unbroken body) {t l : Text}
    {ls : List Text} (h : lines t = l :: ls) : lines (body ++ t) = (body ++ l) :: ls := by
  induction body with
  | nil => exact h
  | cons c body ih =>
      rw [unbroken_cons] at hbody
      exact lines_cons hbody.1 (ih hbody.2)

theorem lines_unbroken {body : Text} (hbody : Unbroken body) (hne : body ≠ []) :
    lines body = [body] := by
  induction body with
  | nil => exact absurd rfl hne
  | cons c body ih =>
      rw [unbroken_cons] at hbody
      cases body with
      | nil =>
          have hbreak : c ≠ '\n' ∧ c ≠ '\r' := by simpa [isBreak] using hbody.1
          simp [lines, hbreak.1, hbreak.2]
      | cons d body => exact lines_cons hbody.1 (ih hbody.2 (by simp))

/-- The last character of a line tells whether it has a terminator. -/
theorem IsLine.unbroken_of_not_terminated {l : Text} (hl : IsLine l) (h : ¬ Terminated l) :
    Unbroken l := by
  cases hl with
  | lf _ => exact absurd ⟨'\n', by simp, rfl⟩ h
  | crlf _ => exact absurd ⟨'\n', by simp, rfl⟩ h
  | cr _ => exact absurd ⟨'\r', by simp, rfl⟩ h
  | unterminated hbody _ => exact hbody

theorem not_terminated_of_unbroken {l : Text} (h : Unbroken l) : ¬ Terminated l := by
  rintro ⟨c, hc, hbreak⟩
  rw [h c (List.mem_of_getLast? hc)] at hbreak
  exact absurd hbreak (by simp)

/-- A terminated line is cut off the text behind it, unless the two fuse. -/
theorem lines_append {l : Text} (hl : IsLine l) (hterminated : Terminated l) {t : Text}
    (h : ¬ Fuses l t) : lines (l ++ t) = l :: lines t := by
  cases hl with
  | lf hbody =>
      rw [List.append_assoc]
      exact lines_unbroken_append hbody (lines_lf t)
  | crlf hbody =>
      rw [List.append_assoc]
      exact lines_unbroken_append hbody (lines_crlf t)
  | cr hbody =>
      rw [List.append_assoc]
      apply lines_unbroken_append hbody
      apply lines_cr
      intro hhead
      exact h ⟨by simp, hhead⟩
  | unterminated hbody _ => exact absurd hterminated (not_terminated_of_unbroken hbody)

theorem lines_of_isLine {l : Text} (hl : IsLine l) : lines l = [l] := by
  by_cases hterminated : Terminated l
  · have happend := lines_append hl hterminated (t := []) (by simp [Fuses])
    rwa [List.append_nil] at happend
  · exact lines_unbroken (hl.unbroken_of_not_terminated hterminated) hl.ne_nil

/-! ### The lines of a text -/

theorem isLine_of_mem_lines {t l : Text} (h : l ∈ lines t) : IsLine l := by
  fun_induction lines t generalizing l with
  | case1 => exact absurd h (by simp)
  | case2 t ih =>
      rcases List.mem_cons.1 h with rfl | h
      · exact @IsLine.crlf [] (by simp [Unbroken])
      · exact ih h
  | case3 c t _ hbreak ih =>
      rcases List.mem_cons.1 h with rfl | h
      · rcases hbreak with rfl | rfl
        · exact @IsLine.lf [] (by simp [Unbroken])
        · exact @IsLine.cr [] (by simp [Unbroken])
      · exact ih h
  | case4 c t _ hbreak _ _ =>
      rw [List.mem_singleton.1 h]
      exact .unterminated (by simpa [Unbroken, isBreak] using hbreak) (by simp)
  | case5 c t _ hbreak first rest hcons ih =>
      rcases List.mem_cons.1 h with rfl | h
      · have hfirst : IsLine first := ih (by rw [hcons]; exact List.mem_cons_self)
        exact hfirst.cons (by simpa [isBreak] using hbreak)
      · exact ih (by rw [hcons]; exact List.mem_cons_of_mem _ h)

/-- A text begins with what its first line begins with. -/
theorem head?_of_mem_head?_lines {t l : Text} (h : l ∈ (lines t).head?) :
    l.head? = t.head? := by
  have hne : l ≠ [] := (isLine_of_mem_lines (List.mem_of_head? h)).ne_nil
  obtain ⟨rest, hrest⟩ := List.head?_eq_some_iff.1 h
  conv_rhs => rw [← flatten_lines t, hrest, List.flatten_cons]
  cases l with
  | nil => exact absurd rfl hne
  | cons c l => rfl

/-- Every line of a text can be followed by the next. -/
theorem isChain_lines (t : Text) : (lines t).IsChain Follows := by
  fun_induction lines t with
  | case1 => exact .nil
  | case2 t ih =>
      refine List.isChain_cons.2 ⟨?_, ih⟩
      intro next _
      exact ⟨⟨'\n', rfl, rfl⟩, by simp [Fuses]⟩
  | case3 c t hcrlf hbreak ih =>
      refine List.isChain_cons.2 ⟨?_, ih⟩
      intro next hnext
      rcases hbreak with rfl | rfl
      · exact ⟨⟨'\n', rfl, rfl⟩, by simp [Fuses]⟩
      · refine ⟨⟨'\r', rfl, rfl⟩, ?_⟩
        -- A `\n` behind it would have been part of this terminator.
        rintro ⟨-, hhead⟩
        rw [head?_of_mem_head?_lines hnext] at hhead
        obtain ⟨rest, rfl⟩ := List.head?_eq_some_iff.1 hhead
        exact hcrlf rest rfl rfl
  | case4 => exact .singleton _
  | case5 c t _ _ first rest hcons ih =>
      rw [hcons, List.isChain_cons] at ih
      have hne : first ≠ [] :=
        (isLine_of_mem_lines (t := t) (by rw [hcons]; exact List.mem_cons_self)).ne_nil
      have hlast : (c :: first).getLast? = first.getLast? := by
        rw [← List.singleton_append, List.getLast?_append_of_ne_nil _ hne]
      refine List.isChain_cons.2 ⟨?_, ih.2⟩
      intro next hnext
      have hfollows := ih.1 next hnext
      unfold Follows Terminated Fuses at hfollows ⊢
      rwa [hlast]

theorem isChain_terminated_lines (t : Text) : (lines t).IsChain fun a _ => Terminated a :=
  (isChain_lines t).imp fun _ _ h => h.1

theorem isChain_not_fuses_lines (t : Text) : (lines t).IsChain fun a b => ¬ Fuses a b :=
  (isChain_lines t).imp fun _ _ h => h.2

/-! ### Lines put together -/

/-- What begins with `\n` and is a line is nothing else. -/
theorem IsLine.eq_lf {l : Text} (hl : IsLine l) (h : l.head? = some '\n') : l = ['\n'] := by
  have hbody : ∀ body rest : Text, Unbroken body → (body ++ rest).head? = some '\n' →
      body = [] := by
    intro body rest hunbroken hhead
    cases body with
    | nil => rfl
    | cons c body =>
        obtain rfl : c = '\n' := Option.some.inj hhead
        exact absurd (hunbroken '\n' List.mem_cons_self) (by decide)
  cases hl with
  | lf hunbroken => rw [hbody _ _ hunbroken h, List.nil_append]
  | crlf hunbroken =>
      rw [hbody _ _ hunbroken h] at h
      exact absurd h (by decide)
  | cr hunbroken =>
      rw [hbody _ _ hunbroken h] at h
      exact absurd h (by decide)
  | unterminated hunbroken hne => exact absurd (hbody l [] hunbroken (by simpa using h)) hne

/-- What ends with `\r` and is a line has that alone for a terminator. -/
theorem IsLine.append_lf {l : Text} (hl : IsLine l) (h : l.getLast? = some '\r') :
    IsLine (l ++ ['\n']) := by
  cases hl with
  | lf _ => exact absurd h (by simp)
  | crlf _ => exact absurd h (by simp)
  | cr hunbroken =>
      rw [List.append_assoc]
      exact .crlf hunbroken
  | unterminated hunbroken _ =>
      exact absurd ⟨'\r', h, rfl⟩ (not_terminated_of_unbroken hunbroken)

/-- Lines of which all but the last are terminated, put together and cut again, are the
same lines but for those that fuse. -/
theorem lines_flatten_eq_fuse {ls : List Text} (hlines : ∀ l ∈ ls, IsLine l)
    (hterminated : ls.IsChain fun a _ => Terminated a) : lines ls.flatten = fuse ls := by
  fun_induction fuse ls with
  | case1 a b rest hfuses ih =>
      simp only [List.forall_mem_cons] at hlines
      obtain ⟨ha, hb, hrest⟩ := hlines
      -- The second line is the missing half of a terminator.
      have hlf : b = ['\n'] := hb.eq_lf hfuses.2
      subst hlf
      have hline : IsLine (a ++ ['\n']) := ha.append_lf hfuses.1
      rw [List.flatten_cons, List.flatten_cons, ← List.append_assoc,
        lines_append hline ⟨'\n', by simp, rfl⟩ (by simp [Fuses]),
        ih hrest hterminated.tail.tail]
  | case2 a b rest hfuses ih =>
      rw [List.forall_mem_cons] at hlines
      rw [List.isChain_cons_cons] at hterminated
      have hhead : (b :: rest).flatten.head? = b.head? := by
        have hne := (hlines.2 b List.mem_cons_self).ne_nil
        cases b with
        | nil => exact absurd rfl hne
        | cons c b => rfl
      rw [List.flatten_cons,
        lines_append hlines.1 hterminated.1 (by unfold Fuses; rw [hhead]; exact hfuses),
        ih hlines.2 hterminated.2]
  | case3 ls hls =>
      cases ls with
      | nil => rfl
      | cons l ls =>
          cases ls with
          | nil =>
              rw [List.flatten_cons, List.flatten_nil, List.append_nil]
              exact lines_of_isLine (hlines l List.mem_cons_self)
          | cons l' rest => exact absurd rfl (hls l l' rest)

theorem fuse_eq_self {ls : List Text} (h : ls.IsChain fun a b => ¬ Fuses a b) : fuse ls = ls := by
  fun_induction fuse ls with
  | case1 a b rest hfuses ih => exact absurd hfuses (List.isChain_cons_cons.1 h).1
  | case2 a b rest hfuses ih => rw [ih (List.isChain_cons_cons.1 h).2]
  | case3 => rfl

theorem length_fuse_le (ls : List Text) : (fuse ls).length ≤ ls.length := by
  fun_induction fuse ls with
  | case1 a b rest hfuses ih => simp only [List.length_cons]; omega
  | case2 a b rest hfuses ih => simpa using ih
  | case3 => exact Nat.le_refl _

/-- Where lines fuse they become fewer. -/
theorem fuse_eq_self_of_length {ls : List Text} (h : (fuse ls).length = ls.length) :
    fuse ls = ls := by
  fun_induction fuse ls with
  | case1 a b rest hfuses ih =>
      have hle := length_fuse_le rest
      simp only [List.length_cons] at h
      omega
  | case2 a b rest hfuses ih =>
      simp only [List.length_cons, Nat.add_right_cancel_iff] at h
      rw [ih (by simpa using h)]
  | case3 => rfl

end CleanDiff.Text
