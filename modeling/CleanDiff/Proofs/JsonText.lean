import CleanDiff.Json.Printer
import CleanDiff.Json.Reader
import Mathlib.Data.Nat.Digits.Defs

/-!
# Reading what was printed

A value that is laid out over several lines is read as itself. The parts of it
are read in the middle of a text, so each statement is about a part followed by
any rest: a string ends with its quotes, an array and an object with their
bracket, and only a number ends by what follows it (`Delimits`).

The reader counts its steps. A value takes no more of them than two for each
character (`Reads`): every step into an item, a member or a value has a
character of its own, the new line in front of it or the bracket around it.
-/

namespace CleanDiff.Json

/-! ### Strings -/

theorem hexValue?_hexDigit {n : Nat} (h : n < 16) : hexValue? (hexDigit n) = some n := by
  revert n
  decide

/-- The four digits that a control character is written with. -/
theorem hex4?_of_control {c : Char} (h : c.toNat < 0x20) :
    hex4? '0' '0' (hexDigit (c.toNat / 16)) (hexDigit (c.toNat % 16)) = some c.toNat := by
  have hzero : hexValue? '0' = some 0 := by decide
  rw [hex4?, hzero, hexValue?_hexDigit (by omega), hexValue?_hexDigit (by omega)]
  simp
  omega

/-- A reader that puts a character in front of what is read behind it. -/
theorem bind_cons_eq_map (c : Char) (o : Option (Text × Text)) :
    (do let (s, after) ← o; return (c :: s, after)) = o.map fun r => (c :: r.1, r.2) := by
  cases o <;> rfl

theorem readString_short {e c : Char} (h : shortEscape? e = some c) (t : Text) :
    readString ('\\' :: e :: t) = (readString t).map fun r => (c :: r.1, r.2) := by
  rw [readString, h, ← bind_cons_eq_map]
  · rfl
  · intro a b c' d t' he _
    rw [he] at h
    exact absurd h (by simp [shortEscape?])

theorem readString_control {c : Char} (h : c.toNat < 0x20) (t : Text) :
    readString ('\\' :: 'u' :: '0' :: '0' ::
        hexDigit (c.toNat / 16) :: hexDigit (c.toNat % 16) :: t) =
      (readString t).map fun r => (c :: r.1, r.2) := by
  have hhigh : isHighHalf c.toNat = false := by simp [isHighHalf]; omega
  have hlow : isLowHalf c.toNat = false := by simp [isLowHalf]; omega
  rw [readString, hex4?_of_control h, ← bind_cons_eq_map]
  simp [hhigh, hlow]

theorem readString_plain {c : Char} (hquote : c ≠ '"') (hback : c ≠ '\\') (h : ¬ c.toNat < 0x20)
    (t : Text) : readString (c :: t) = (readString t).map fun r => (c :: r.1, r.2) := by
  rw [readString, if_neg (by simp [hback, h]), ← bind_cons_eq_map]
  · exact hquote
  · intro _ _ _ _ _ hc _
    exact hback hc
  · intro _ _ hc _
    exact hback hc

/-- A character is read as itself, however it is written. -/
theorem readString_escape (c : Char) (t : Text) :
    readString (escape c ++ t) = (readString t).map fun r => (c :: r.1, r.2) := by
  unfold escape
  split
  · exact readString_short rfl t
  · exact readString_short rfl t
  · exact readString_short rfl t
  · exact readString_short rfl t
  · exact readString_short rfl t
  · exact readString_short rfl t
  · exact readString_short rfl t
  · next hquote hback _ _ _ _ _ =>
    split
    · next h => exact readString_control h t
    · next h => exact readString_plain hquote hback h t

/-- A string is read as itself, up to its closing quote. -/
theorem readString_quote (s r : Text) :
    readString (s.flatMap escape ++ '"' :: r) = some (s, r) := by
  induction s with
  | nil => rfl
  | cons c s ih => simp [readString_escape, ih]

/-! ### Numbers -/

/-- The number in front of this text ends here. -/
def Delimits (r : Text) : Prop := ∀ c ∈ r.head?, c.isDigit = false ∧ c ≠ '.' ∧ c ≠ 'e' ∧ c ≠ 'E'

theorem delimits_cons {c : Char} (h : c.isDigit = false ∧ c ≠ '.' ∧ c ≠ 'e' ∧ c ≠ 'E') (r : Text) :
    Delimits (c :: r) := by simpa [Delimits] using h

theorem isDigit_of_mem_digits {n : Nat} {c : Char} (h : c ∈ digits n) : c.isDigit = true :=
  Nat.isDigit_of_mem_toDigits (by decide) (by decide) h

theorem natOfDigits_digits (n : Nat) : natOfDigits (digits n) = n := by
  have h := @Nat.ofDigitChars_ten_toDigits n
  rw [Nat.ofDigitChars_eq_foldl] at h
  rw [natOfDigits, digits]
  simpa [Nat.mul_comm] using h

theorem digits_ne_nil (n : Nat) : digits n ≠ [] := Nat.toDigits_ne_nil

/-- No number but zero begins with a zero. -/
theorem head?_digits_ne_zero {n : Nat} (h : n ≠ 0) : (digits n).head? ≠ some '0' := by
  induction n using Nat.strong_induction_on with
  | _ n ih =>
    obtain hn | hn := Nat.lt_or_ge n 10
    · have hdigit : ∀ n < 10, n ≠ 0 → n.digitChar ≠ '0' := by decide
      rw [digits, Nat.toDigits_of_lt_base hn]
      simpa using hdigit n hn h
    · have hhead := ih (n / 10) (by omega) (by omega)
      obtain ⟨c, cs, hcs⟩ := List.exists_cons_of_ne_nil (digits_ne_nil (n / 10))
      rw [digits, Nat.toDigits_of_base_le (by decide) hn, ← digits, hcs]
      simpa [hcs] using hhead

theorem readFraction_of_delimits {r : Text} (h : Delimits r) : readFraction r = some ([], r) := by
  cases r with
  | nil => rfl
  | cons c r =>
    have hdot : c ≠ '.' := (h c rfl).2.1
    simp [readFraction, hdot]

theorem readExponent_of_delimits {r : Text} (h : Delimits r) :
    readExponent r = some ([], 0, r) := by
  cases r with
  | nil => rfl
  | cons c r =>
    obtain ⟨-, -, he, hE⟩ := h c rfl
    simp [readExponent, he, hE]

theorem spanDigits_digits (n : Nat) {r : Text} (h : Delimits r) :
    spanDigits (digits n ++ r) = (digits n, r) := by
  have hall : ∀ c ∈ digits n, c.isDigit = true := fun c hc => isDigit_of_mem_digits hc
  have hr : r.takeWhile Char.isDigit = [] ∧ r.dropWhile Char.isDigit = r := by
    cases r with
    | nil => simp
    | cons c r => simp [(h c rfl).1]
  rw [spanDigits, List.takeWhile_append_of_pos hall, List.dropWhile_append_of_pos hall, hr.1, hr.2,
    List.append_nil]

/-- A natural number is read as itself where it ends, if a double can hold it. -/
theorem readNumber_digits {n : Nat} (hn : overflows (digits n) 0 = false) {r : Text}
    (h : Delimits r) : readNumber (digits n ++ r) = some (.nat n, r) := by
  obtain ⟨c, t, ht, hc⟩ : ∃ c t, digits n ++ r = c :: t ∧ c.isDigit = true := by
    obtain ⟨c, cs, hcs⟩ := List.exists_cons_of_ne_nil (digits_ne_nil n)
    exact ⟨c, cs ++ r, by simp [hcs], isDigit_of_mem_digits (hcs ▸ List.mem_cons_self)⟩
  have hminus : c ≠ '-' := by
    intro hc'
    exact absurd hc (by simp [hc'])
  have hspan := ht ▸ spanDigits_digits n h
  have hzero : ¬ (digits n = [] ∨ ((digits n).head? = some '0' ∧ 1 < (digits n).length)) := by
    intro hleading
    obtain hnil | ⟨hhead, hlength⟩ := hleading
    · exact digits_ne_nil n hnil
    · obtain rfl | hne := Nat.eq_zero_or_pos n
      · exact absurd hlength (by decide)
      · exact head?_digits_ne_zero (by omega) hhead
  rw [ht]
  simp [readNumber, hminus, hspan, hzero, readFraction_of_delimits h, readExponent_of_delimits h,
    hn, natOfDigits_digits]

/-- A double holds every word of 64 bits. -/
theorem overflows_digits_of_lt {n : Nat} (h : n < Nat.pow 2 64) :
    overflows (digits n) 0 = false := by
  have hlength : (Nat.toDigits 10 n).length ≤ 20 :=
    (Nat.length_toDigits_le_iff (by decide) (by decide)).2 (Nat.lt_trans h (by decide))
  have hsmall : ((Nat.toDigits 10 n).length : Int) + 0 < 300 := by omega
  simp only [overflows, natOfDigits_digits, hsmall, or_true, if_true]

/-! ### Blanks -/

theorem skip_newline (level : Nat) (t : Text) : skip (newline level ++ t) = skip t := by
  have hspaces : ∀ n, skip (List.replicate n ' ' ++ t) = skip t := by
    intro n
    induction n with
    | zero => rfl
    | succ n ih => exact ih
  exact hspaces (2 * level)

/-- Blanks in front of a value mean nothing. -/
theorem readValue_congr {t t' : Text} (h : skip t = skip t') (fuel depth : Nat) :
    readValue fuel depth t = readValue fuel depth t' := by
  cases fuel with
  | zero => rfl
  | succ fuel => rw [readValue, readValue, h]

/-! ### Values -/

/-- A closing bracket begins no item. -/
theorem readItems_bracket {t after : Text} (h : skip t = ']' :: after) (fuel depth : Nat) :
    readItems fuel depth t = none := by
  obtain _ | _ | fuel := fuel
  · rfl
  · rfl
  · rw [readItems, readValue, h]
    rfl

/-- A closing brace begins no member. -/
theorem readMembers_brace {t after : Text} (h : skip t = '\x7d' :: after) (fuel depth : Nat) :
    readMembers fuel depth t = none := by
  cases fuel with
  | zero => rfl
  | succ fuel =>
    rw [readMembers, h]
    rfl

theorem readValue_items {fuel depth : Nat} {t : Text} {items : List Json} {r : Text}
    (h : readItems fuel depth t = some (items, r)) :
    readValue (fuel + 1) (depth + 1) ('[' :: t) = some (.arr items, r) := by
  have hskip : skip ('[' :: t) = '[' :: t := rfl
  rw [readValue, hskip]
  simp only [Nat.add_one_ne_zero, if_false, Nat.add_sub_cancel]
  split
  · next after hafter => exact absurd h (by simp [readItems_bracket hafter])
  · rw [h]
    rfl

theorem readValue_members {fuel depth : Nat} {t : Text} {members : List (Text × Json)} {r : Text}
    (h : readMembers fuel depth t = some (members, r)) :
    readValue (fuel + 1) (depth + 1) ('\x7b' :: t) = some (.obj members, r) := by
  have hskip : skip ('\x7b' :: t) = '\x7b' :: t := rfl
  rw [readValue, hskip]
  simp only [Nat.add_one_ne_zero, if_false, Nat.add_sub_cancel]
  split
  · next after hafter => exact absurd h (by simp [readMembers_brace hafter])
  · rw [h]
    rfl

/-- The text is read as the value where a delimiter follows, in no more steps
than two for each character. -/
def Reads (depth : Nat) (s : Text) (v : Json) : Prop :=
  ∀ (fuel : Nat) (r : Text), 2 * s.length ≤ fuel + 1 → Delimits r →
    readValue (fuel + 1) depth (s ++ r) = some (v, r)

/-- A value that nests at most so deep, with no number but natural ones that a
double can hold. -/
inductive Plain : Nat → Json → Prop
  | null (depth : Nat) : Plain depth .null
  | bool (depth : Nat) (b : Bool) : Plain depth (.bool b)
  | nat (depth : Nat) {n : Nat} (h : overflows (digits n) 0 = false) : Plain depth (.nat n)
  | str (depth : Nat) (s : Text) : Plain depth (.str s)
  | arr {depth : Nat} {items : List Json} (h : ∀ v ∈ items, Plain depth v) :
      Plain (depth + 1) (.arr items)
  | obj {depth : Nat} {members : List (Text × Json)} (h : ∀ m ∈ members, Plain depth m.2) :
      Plain (depth + 1) (.obj members)

theorem delimits_comma (r : Text) : Delimits (',' :: r) := delimits_cons (by decide) r

theorem delimits_newline (level : Nat) (r : Text) : Delimits (newline level ++ r) :=
  delimits_cons (by decide) _

theorem readItems_last {fuel depth : Nat} {t rest r : Text} {v : Json}
    (h : readValue fuel depth t = some (v, rest)) (hrest : skip rest = ']' :: r) :
    readItems (fuel + 1) depth t = some ([v], r) := by
  rw [readItems, h]
  simp [hrest]

theorem readItems_more {fuel depth : Nat} {t rest r : Text} {v : Json} {items : List Json}
    (h : readValue fuel depth t = some (v, ',' :: rest))
    (hrest : readItems fuel depth rest = some (items, r)) :
    readItems (fuel + 1) depth t = some (v :: items, r) := by
  have hskip : skip (',' :: rest) = ',' :: rest := rfl
  rw [readItems, h]
  simp [hskip, hrest]

/-- A key on a line of its own, as it is read. -/
theorem skip_member (level : Nat) (key t : Text) :
    skip (newline level ++ quote key ++ t) = '"' :: (key.flatMap escape ++ '"' :: t) := by
  rw [List.append_assoc, skip_newline]
  simp [quote, skip, isSpace]

theorem readMembers_last {fuel depth level : Nat} {key t rest r : Text} {v : Json}
    (h : readValue fuel depth t = some (v, rest)) (hrest : skip rest = '\x7d' :: r) :
    readMembers (fuel + 1) depth (newline level ++ quote key ++ ':' :: t)
      = some ([(key, v)], r) := by
  have hskip : skip (':' :: t) = ':' :: t := rfl
  rw [readMembers, skip_member]
  simp [readString_quote, hskip, h, hrest]

theorem readMembers_more {fuel depth level : Nat} {key t rest r : Text} {v : Json}
    {members : List (Text × Json)} (h : readValue fuel depth t = some (v, ',' :: rest))
    (hrest : readMembers fuel depth rest = some (members, r)) :
    readMembers (fuel + 1) depth (newline level ++ quote key ++ ':' :: t)
      = some ((key, v) :: members, r) := by
  have hskip : skip (':' :: t) = ':' :: t := rfl
  have hcomma : skip (',' :: rest) = ',' :: rest := rfl
  rw [readMembers, skip_member]
  simp [readString_quote, hskip, h, hcomma, hrest]

theorem Reads.behind_newline {depth : Nat} {s : Text} {v : Json} (h : Reads depth s v)
    (level : Nat) {fuel : Nat} (hfuel : 2 * s.length ≤ fuel + 1) {r : Text} (hr : Delimits r) :
    readValue (fuel + 1) depth (newline level ++ s ++ r) = some (v, r) := by
  rw [List.append_assoc, readValue_congr (skip_newline level _)]
  exact h fuel r hfuel hr

theorem Reads.behind_space {depth : Nat} {s : Text} {v : Json} (h : Reads depth s v)
    {fuel : Nat} (hfuel : 2 * s.length ≤ fuel + 1) {r : Text} (hr : Delimits r) :
    readValue (fuel + 1) depth (' ' :: (s ++ r)) = some (v, r) := by
  have hskip : skip (' ' :: (s ++ r)) = skip (s ++ r) := rfl
  rw [readValue_congr hskip]
  exact h fuel r hfuel hr

/-- Items that read one by one read as a list, up to the closing bracket. -/
theorem readItems_prettyItems {depth level : Nat} {items : List Json} (hne : items ≠ [])
    (h : ∀ v ∈ items, Reads depth (prettyAt level v) v) (below : Nat) (r : Text) {fuel : Nat}
    (hfuel : 2 * (prettyItems level items).length ≤ fuel) :
    readItems fuel depth (prettyItems level items ++ (newline below ++ ']' :: r))
      = some (items, r) := by
  induction items generalizing fuel with
  | nil => exact absurd rfl hne
  | cons v rest ih =>
    have hv := h v List.mem_cons_self
    cases rest with
    | nil =>
      simp [prettyItems, newline] at hfuel
      obtain ⟨fuel, rfl⟩ : ∃ n, fuel = n + 2 := ⟨fuel - 2, by omega⟩
      have hvalue := hv.behind_newline level (by omega : _ ≤ fuel + 1)
        (delimits_newline below (']' :: r))
      rw [prettyItems]
      exact readItems_last hvalue (skip_newline below _)
    | cons w rest =>
      simp [prettyItems, newline] at hfuel
      obtain ⟨fuel, rfl⟩ : ∃ n, fuel = n + 2 := ⟨fuel - 2, by omega⟩
      have hvalue := hv.behind_newline level (by omega : _ ≤ fuel + 1)
        (delimits_comma (prettyItems level (w :: rest) ++ (newline below ++ ']' :: r)))
      have hrest : readItems (fuel + 1) depth _ = some (w :: rest, r) :=
        ih (by simp) (fun u hu => h u (List.mem_cons_of_mem v hu)) (by omega)
      have heq : prettyItems level (v :: w :: rest)
          = newline level ++ prettyAt level v ++ ',' :: prettyItems level (w :: rest) := by
        rw [prettyItems]
        simp
      rw [heq, List.append_assoc]
      exact readItems_more hvalue hrest

/-- Members whose values read one by one read as a list, up to the closing
brace. -/
theorem readMembers_prettyMembers {depth level : Nat} {members : List (Text × Json)}
    (hne : members ≠ []) (h : ∀ m ∈ members, Reads depth (prettyAt level m.2) m.2) (below : Nat)
    (r : Text) {fuel : Nat} (hfuel : 2 * (prettyMembers level members).length ≤ fuel) :
    readMembers fuel depth (prettyMembers level members ++ (newline below ++ '\x7d' :: r))
      = some (members, r) := by
  induction members generalizing fuel with
  | nil => exact absurd rfl hne
  | cons m rest ih =>
    obtain ⟨key, v⟩ := m
    have hv : Reads depth (prettyAt level v) v := h (key, v) List.mem_cons_self
    cases rest with
    | nil =>
      simp [prettyMembers, newline] at hfuel
      obtain ⟨fuel, rfl⟩ : ∃ n, fuel = n + 2 := ⟨fuel - 2, by omega⟩
      have hvalue := hv.behind_space (by omega : _ ≤ fuel + 1)
        (delimits_newline below ('\x7d' :: r))
      rw [prettyMembers, List.append_assoc]
      exact readMembers_last hvalue (skip_newline below _)
    | cons w rest =>
      simp [prettyMembers, newline] at hfuel
      obtain ⟨fuel, rfl⟩ : ∃ n, fuel = n + 2 := ⟨fuel - 2, by omega⟩
      have hvalue := hv.behind_space (by omega : _ ≤ fuel + 1)
        (delimits_comma (prettyMembers level (w :: rest) ++ (newline below ++ '\x7d' :: r)))
      have hrest : readMembers (fuel + 1) depth _ = some (w :: rest, r) :=
        ih (by simp) (fun u hu => h u (List.mem_cons_of_mem (key, v) hu)) (by omega)
      have heq : prettyMembers level ((key, v) :: w :: rest)
          = newline level ++ quote key
            ++ ':' :: ' ' :: (prettyAt level v ++ ',' :: prettyMembers level (w :: rest)) := by
        rw [prettyMembers]
        simp
      rw [heq, List.append_assoc]
      simp only [List.cons_append, List.append_assoc]
      rw [← List.append_assoc]
      exact readMembers_more hvalue hrest

theorem readValue_number {c : Char} (h : c.isDigit = true) (fuel depth : Nat) (t : Text) :
    readValue (fuel + 1) depth (c :: t) = readNumber (c :: t) := by
  have hne : ∀ d : Char, d.isDigit = false → c ≠ d := by
    intro d hd hc
    rw [hc, hd] at h
    exact absurd h (by simp)
  have hskip : skip (c :: t) = c :: t := by
    simp [skip, isSpace, hne ' ' rfl, hne '\t' rfl, hne '\n' rfl, hne '\r' rfl]
  rw [readValue, hskip]
  split
  · next heq => exact absurd (List.cons.inj heq).1 (hne _ rfl)
  · next heq => exact absurd (List.cons.inj heq).1 (hne _ rfl)
  · next heq => exact absurd (List.cons.inj heq).1 (hne _ rfl)
  · next heq => exact absurd (List.cons.inj heq).1 (hne _ rfl)
  · next heq => exact absurd (List.cons.inj heq).1 (hne _ rfl)
  · next heq => exact absurd (List.cons.inj heq).1 (hne _ rfl)
  · rfl

theorem reads_digits {n : Nat} (hn : overflows (digits n) 0 = false) (depth : Nat) :
    Reads depth (digits n) (.nat n) := by
  intro fuel r _ hr
  obtain ⟨c, cs, hcs⟩ := List.exists_cons_of_ne_nil (digits_ne_nil n)
  have hc : c.isDigit = true := isDigit_of_mem_digits (hcs ▸ List.mem_cons_self)
  have hread := readNumber_digits hn hr
  rw [hcs] at hread ⊢
  rw [List.cons_append, readValue_number hc]
  exact hread

theorem reads_quote (depth : Nat) (s : Text) : Reads depth (quote s) (.str s) := by
  intro fuel r _ _
  have hskip : skip (quote s ++ r) = '"' :: (s.flatMap escape ++ '"' :: r) := by
    simp [quote, skip, isSpace]
  rw [readValue, hskip]
  simp [readString_quote]

theorem reads_arr {depth level : Nat} {items : List Json}
    (h : ∀ v ∈ items, Reads depth (prettyAt (level + 1) v) v) :
    Reads (depth + 1) (prettyAt level (.arr items)) (.arr items) := by
  intro fuel r hfuel _
  cases items with
  | nil => simp [prettyAt, readValue, skip, isSpace]
  | cons v rest =>
    simp [prettyAt] at hfuel
    have hitems := readItems_prettyItems (by simp) h level r (by omega : _ ≤ fuel)
    simpa [prettyAt] using readValue_items hitems

theorem reads_obj {depth level : Nat} {members : List (Text × Json)}
    (h : ∀ m ∈ members, Reads depth (prettyAt (level + 1) m.2) m.2) :
    Reads (depth + 1) (prettyAt level (.obj members)) (.obj members) := by
  intro fuel r hfuel _
  cases members with
  | nil => simp [prettyAt, readValue, skip, isSpace]
  | cons m rest =>
    simp [prettyAt] at hfuel
    have hmembers := readMembers_prettyMembers (by simp) h level r (by omega : _ ≤ fuel)
    simpa [prettyAt] using readValue_members hmembers

theorem reads_null (depth : Nat) : Reads depth ['n', 'u', 'l', 'l'] .null := by
  intro fuel r _ _
  simp [readValue, skip, isSpace]

theorem reads_bool (depth : Nat) (b : Bool) : Reads depth (compact (.bool b)) (.bool b) := by
  intro fuel r _ _
  cases b with
  | false => simp [compact, readValue, skip, isSpace]
  | true => simp [compact, readValue, skip, isSpace]

/-- A plain value is read as itself, wherever its first line stands. -/
theorem Plain.reads {depth : Nat} {v : Json} (h : Plain depth v) (level : Nat) :
    Reads depth (prettyAt level v) v := by
  induction h generalizing level with
  | null depth =>
    rw [prettyAt, compact]
    exact reads_null depth
  | bool depth b =>
    rw [prettyAt]
    exact reads_bool depth b
  | nat depth hn =>
    rw [prettyAt, compact]
    exact reads_digits hn depth
  | str depth s =>
    rw [prettyAt, compact]
    exact reads_quote depth s
  | arr _ ih => exact reads_arr fun v hv => ih v hv (level + 1)
  | obj _ ih => exact reads_obj fun m hm => ih m hm (level + 1)

/-- A plain value on lines of its own is read as itself. -/
theorem parse?_pretty {v : Json} (h : Plain maxDepth v) : parse? (pretty v ++ ['\n']) = some v := by
  have hread : readValue (2 * (pretty v ++ ['\n']).length + 2) maxDepth (pretty v ++ ['\n'])
      = some (v, ['\n']) :=
    h.reads 0 _ ['\n'] (by simp [pretty]; omega) (delimits_newline 0 [])
  have hend : skip ['\n'] = [] := rfl
  rw [parse?, hread]
  simp [hend]

end CleanDiff.Json
