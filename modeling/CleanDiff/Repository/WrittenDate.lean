import CleanDiff.Json.Reader

/-!
# Dates as people write them

A point in time can be written in many ways: `2020-01-31 12:00:00 +0100`,
`yesterday`, `2 weeks ago`, `Jan 3`. A text is first read strictly, and then it has
to say a day and a time of day. Otherwise it is read loosely: whatever it does not
say is as it is now, numbers with a unit count back from there, and what is not
understood is passed over. A text of which nothing is understood is no date.

Times are whole seconds since the beginning of 1970, and clocks show universal
time unless a text says otherwise.
-/

namespace CleanDiff.WrittenDate

/-! ### The calendar -/

/-- The number of a day since the beginning of 1970. Months are counted from zero, and
the day may lie beyond the end of its month. -/
def dayNumber (year : Int) (month day : Nat) : Int :=
  let year := if month < 2 then year - 1 else year
  let cycle := year / 400
  let inCycle := year - cycle * 400
  let inYear : Int := (153 * ((month + 10) % 12) + 2) / 5 + day - 1
  cycle * 146097 + inCycle * 365 + inCycle / 4 - inCycle / 100 + inYear - 719468

/-- The year, the month and the day with a number. -/
def ofDayNumber (number : Int) : Int × Nat × Nat :=
  let shifted := number + 719468
  let cycle := shifted / 146097
  let inCycle := shifted - cycle * 146097
  let year := (inCycle - inCycle / 1460 + inCycle / 36524 - inCycle / 146096) / 365
  let inYear := inCycle - (365 * year + year / 4 - year / 100)
  let month := (5 * inYear + 2) / 153
  let day := inYear - (153 * month + 2) / 5 + 1
  let month := (month.toNat + 2) % 12
  (year + cycle * 400 + (if month < 2 then 1 else 0), month, day.toNat)

/-- What a text has said of a date and a time of day. -/
structure Parts where
  year : Option Int := none
  /-- Counted from zero. -/
  month : Option Nat := none
  day : Option Nat := none
  hour : Option Nat := none
  minute : Option Nat := none
  second : Option Nat := none
  /-- Counted from zero, which is Sunday. -/
  weekday : Nat := 0
  deriving DecidableEq, Repr

/-- The parts of a point in time. -/
def Parts.ofTime (time : Int) : Parts :=
  let number := time / 86400
  let inDay := (time - number * 86400).toNat
  let (year, month, day) := ofDayNumber number
  ⟨some year, some month, some day, some (inDay / 3600), some (inDay / 60 % 60), some (inDay % 60),
    ((number + 4) % 7).toNat⟩

/-- The point in time that parts say; what they do not say is zero. -/
def Parts.time (p : Parts) : Int :=
  dayNumber (p.year.getD 1970) (p.month.getD 0) (p.day.getD 1) * 86400 +
    Int.ofNat (p.hour.getD 0 * 3600 + p.minute.getD 0 * 60 + p.second.getD 0)

/-- The point in time that parts say strictly: all but the day have to be there, and
the year has to be between 1970 and 2099. Without a day, the one two before the first
is meant. -/
def Parts.time? (p : Parts) : Option Int := do
  let year ← p.year
  let _ ← p.month
  let _ ← p.hour
  let _ ← p.minute
  let _ ← p.second
  if year < 1970 ∨ 2099 < year then none
  else if p.day.isNone then return { p with day := some 1 }.time - 172800
  else return p.time

/-! ### Words -/

def months : List String :=
  ["January", "February", "March", "April", "May", "June", "July", "August", "September",
    "October", "November", "December"]

def weekdays : List String :=
  ["Sundays", "Mondays", "Tuesdays", "Wednesdays", "Thursdays", "Fridays", "Saturdays"]

/-- Clocks with names, and how many hours they are ahead of universal time. -/
def zones : List (String × Int) :=
  [("HST", -10), ("PST", -8), ("PDT", -7), ("MST", -7), ("MDT", -6), ("CST", -6), ("CDT", -5),
    ("EST", -5), ("EDT", -4), ("AST", -3), ("ADT", -2), ("WAT", -1), ("GMT", 0), ("UTC", 0),
    ("Z", 0), ("WET", 0), ("BST", 1), ("MET", 1), ("CET", 1), ("EET", 2), ("JST", 9),
    ("EAST", 10), ("NZT", 12), ("NZST", 12)]

/-- Units of time, with their length in seconds. -/
def units : List (String × Nat) :=
  [("seconds", 1), ("minutes", 60), ("hours", 3600), ("days", 86400), ("weeks", 604800)]

def numberWords : List String :=
  ["one", "two", "three", "four", "five", "six", "seven", "eight", "nine", "ten"]

/-- How many characters at the head of a text are those of a word; none count if the
text goes on with another letter or digit. -/
def agreement : Text → Text → Nat
  | [], _ => 0
  | c :: t, x :: word =>
      if c.toUpper = x.toUpper then
        match agreement t word with
        | 0 => if t.head?.any fun d => d.isAlphanum then 0 else 1
        | n => n + 1
      else 0
  | _ :: _, [] => 0

/-- How many characters of a word a text begins with. -/
def common (t : Text) (word : String) : Nat := agreement t word.toList

/-- The place in a list of the first word that a text begins with, at least so many
characters of it. -/
def wordIndex? (least : Nat) (words : List String) (t : Text) : Option Nat :=
  words.findIdx? fun word => least ≤ common t word

/-! ### Days and times in digits -/

/-- The number at the head of a text, and what follows. -/
def number (t : Text) : Nat × Text :=
  (Json.natOfDigits (t.takeWhile Char.isDigit), t.dropWhile Char.isDigit)

/-- The year that a number means. -/
def yearOf? (n : Nat) : Option Int :=
  if 1970 ≤ n ∧ n < 2100 then some n
  else if 70 < n ∧ n < 100 then some (1900 + n)
  else if n < 38 then some (2000 + n)
  else none

/-- Take three numbers for a day, unless it is more than ten days ahead. -/
def withDay? (now : Int) (p : Parts) (year : Option Nat) (month day : Nat) : Option Parts := do
  if month = 0 ∨ 12 < month ∨ day = 0 ∨ 31 < day then none
  else
    let said ← match year with
      | some n => (yearOf? n).map some
      | none => some none
    let dated := { p with month := some (month - 1), day := some day }
    let assumed := said.getD ((Parts.ofTime now).year.getD 1970)
    if ({ dated with year := some assumed }.time?).any fun time => now + 864000 < time then none
    else return { dated with year := said <|> p.year }

/-- Take numbers with a sign between them for a day or a time of day. -/
def withNumbers? (now : Int) (p : Parts) (sign : Char) (a b : Nat) (c : Option Nat) :
    Option Parts :=
  if sign = ':' then
    if a < 25 ∧ b < 60 ∧ c.getD 0 ≤ 60 then
      some { p with hour := some a, minute := some b, second := some (c.getD 0) }
    else none
  else
    let third := c.getD 0
    let yearFirst := if 70 < a then
        (withDay? now p (some a) b third) <|> (withDay? now p (some a) third b)
      else none
    let monthFirst := withDay? now p c a b
    let dayFirst := withDay? now p c b a
    yearFirst <|> (if sign = '.' then none else monthFirst) <|> dayFirst <|> monthFirst

/-- Read numbers with a sign between them; none if they make no day and no time of
day. -/
def readNumbers? (now : Int) (p : Parts) (t : Text) : Option (Parts × Text) :=
  let (a, rest) := number t
  match rest with
  | sign :: more =>
      if [':', '.', '/', '-'].contains sign && more.head?.any Char.isDigit then
        let (b, rest) := number more
        let (c, rest) := match rest with
          | again :: further =>
              if again = sign && further.head?.any Char.isDigit then
                let (c, rest) := number further
                (some c, rest)
              else (none, rest)
          | [] => (none, rest)
        (withNumbers? now p sign a b c).map fun p => (p, rest)
      else none
  | [] => none

/-! ### Strict reading -/

/-- What has been read: parts of a date, how many minutes the clock is ahead of
universal time, and whether the parts are in universal time already. -/
structure Strict where
  parts : Parts := {}
  ahead : Option Int := none
  isUniversal : Bool := false

/-- Read a word strictly. -/
def strictWord (s : Strict) (t : Text) : Strict × Nat :=
  let inHalf := fun (half : Nat) =>
    { s with parts := { s.parts with hour := s.parts.hour.map fun h => h % 12 + half } }
  match wordIndex? 3 months t, wordIndex? 3 weekdays t with
  | some n, _ =>
      ({ s with parts := { s.parts with month := some n } }, common t (months.getD n ""))
  | none, some n =>
      ({ s with parts := { s.parts with weekday := n } }, common t (weekdays.getD n ""))
  | none, none =>
      match zones.find? fun z => 3 ≤ common t z.1 || common t z.1 = z.1.length with
      | some z => ({ s with ahead := s.ahead <|> some (60 * z.2) }, common t z.1)
      | none =>
          if common t "PM" = 2 then (inHalf 12, 2)
          else if common t "AM" = 2 then (inHalf 0, 2)
          else (s, (t.takeWhile Char.isAlpha).length)

/-- Take a number of one or two digits for what is missing. -/
def strictSmall (p : Parts) (digits n : Nat) : Parts :=
  if 0 < n ∧ n < 32 ∧ p.day.isNone then { p with day := some n }
  else if digits = 2 ∧ p.year.isNone ∧ n < 10 ∧ p.day.isSome then
    { p with year := some (2000 + n) }
  else if digits = 2 ∧ p.year.isNone ∧ 70 ≤ n then { p with year := some (1900 + n) }
  else if 0 < n ∧ n < 13 ∧ p.month.isNone then { p with month := some (n - 1) }
  else p

/-- The smallest number that is a point in time by itself. -/
def minStamp : Nat := 100000000

/-- Read digits strictly. -/
def strictDigits (now : Int) (s : Strict) (t : Text) : Strict × Nat :=
  let (n, rest) := number t
  let width := t.length - rest.length
  if minStamp ≤ n ∧ s.parts = { weekday := s.parts.weekday } then
    ({ s with parts := Parts.ofTime n, isUniversal := true }, width)
  else
    match readNumbers? now s.parts t with
    | some (p, rest) => ({ s with parts := p }, t.length - rest.length)
    | none =>
        if width = 4 then
          if n ≤ 1400 ∧ s.ahead.isNone then
            ({ s with ahead := some (Int.ofNat (n / 100 * 60 + n % 100)) }, width)
          else if 1900 < n ∧ n < 2100 then
            ({ s with parts := { s.parts with year := some n } }, width)
          else (s, width)
        else if 2 < width then (s, width)
        else ({ s with parts := strictSmall s.parts width n }, width)

/-- Read how far a clock is ahead of universal time, or behind, at its sign. -/
def strictOffset (s : Strict) (behind : Bool) (t : Text) : Strict × Nat :=
  let (n, rest) := number t
  let width := t.length - rest.length
  let (hours, minutes, taken) :=
    if width = 4 then (n / 100, n % 100, width)
    else if width ≠ 2 then (n, 99, width)
    else
      match rest with
      | ':' :: more =>
          let (m, after) := number more
          let width := t.length - after.length
          (n, if width = 5 then m else 99, width)
      | _ => (n, 0, width)
  let count := Int.ofNat (hours * 60 + minutes)
  if minutes < 60 ∧ hours < 24 then
    ({ s with ahead := some (if behind then -count else count) }, taken + 1)
  else (s, taken + 1)

/-- Read a text strictly, in at most `fuel` steps. -/
def readStrict (now : Int) : Nat → Strict → Text → Strict
  | 0, s, _ => s
  | _, s, [] => s
  | fuel + 1, s, c :: rest =>
      let (s, taken) :=
        if c = '\n' then (s, rest.length + 1)
        else if c.isAlpha then strictWord s (c :: rest)
        else if c.isDigit then strictDigits now s (c :: rest)
        else if (c = '-' || c = '+') && rest.head?.any Char.isDigit then
          strictOffset s (c = '-') rest
        else (s, 1)
      readStrict now fuel s ((c :: rest).drop (max taken 1))

/-- The point in time that a text says strictly. -/
def strict? (now : Int) (t : Text) : Option Int := do
  let s := readStrict now (t.length + 1) {} t
  let time ← s.parts.time?
  return if s.isUniversal then time else time - s.ahead.getD 0 * 60

/-! ### Loose reading -/

/-- What has been read: parts of a date, and a number that waits for its unit, if it
is not zero. -/
structure Loose where
  parts : Parts
  waiting : Nat := 0
  /-- Has anything been understood? -/
  isUnderstood : Bool := false

/-- Fill in what is missing from the present and go so many seconds back. -/
def goBack (now : Int) (p : Parts) (seconds : Int) : Parts :=
  let present := Parts.ofTime now
  let month := (p.month <|> present.month).getD 0
  let thisYear := present.year.getD 1970
  let assumed := if present.month.getD 0 < month then thisYear - 1 else thisYear
  let filled := { p with
    day := p.day <|> present.day, month := some month, year := p.year <|> some assumed }
  Parts.ofTime (filled.time - seconds)

/-- Go to the last time that a clock showed an hour. -/
def lastHour (now : Int) (p : Parts) (hour : Nat) : Parts :=
  let p := if p.hour.getD 0 < hour then goBack now p 86400 else p
  { p with hour := some hour, minute := some 0, second := some 0 }

/-- Take a waiting number for an hour in one half of the day. -/
def inHalf (s : Loose) (half : Nat) : Parts :=
  if s.waiting = 0 then
    { s.parts with hour := s.parts.hour.map fun h => h % 12 + half }
  else
    { s.parts with hour := some (s.waiting % 12 + half), minute := some 0, second := some 0 }

/-- Words that mean a time by themselves. -/
def specialWord? (now : Int) (s : Loose) (t : Text) : Option Loose :=
  let is := fun (word : String) => common t word = word.length
  let become := fun (p : Parts) => some { s with parts := p, isUnderstood := true }
  if is "yesterday" then become (goBack now s.parts 86400)
  else if is "noon" then become (lastHour now s.parts 12)
  else if is "midnight" then become (lastHour now s.parts 0)
  else if is "tea" then become (lastHour now s.parts 17)
  else if is "PM" then some ⟨inHalf s 12, 0, true⟩
  else if is "AM" then some ⟨inHalf s 0, 0, true⟩
  else if is "never" then become (Parts.ofTime 0)
  else if is "now" then become (goBack now s.parts 0)
  else none

/-- Words behind a number. -/
def countedWord? (now : Int) (s : Loose) (t : Text) : Option Parts :=
  let n := s.waiting
  match units.find? fun u => u.1.length - 1 ≤ common t u.1 with
  | some u => some (goBack now s.parts (Int.ofNat (u.2 * n)))
  | none =>
      match wordIndex? 3 weekdays t with
      | some day =>
          let apart := Int.ofNat s.parts.weekday - Int.ofNat day
          let weeks := Int.ofNat n - 1 + (if apart ≤ 0 then 1 else 0)
          some (goBack now s.parts ((apart + 7 * weeks) * 86400))
      | none =>
          let p := goBack now s.parts 0
          if 5 ≤ common t "months" then
            let month := Int.ofNat (p.month.getD 0) - Int.ofNat n
            some { p with
              month := some (month % 12).toNat, year := p.year.map fun y => y + month / 12 }
          else if 4 ≤ common t "years" then
            some { p with year := p.year.map fun y => y - n }
          else none

/-- The number that a word means. -/
def wordNumber? (t : Text) : Option Nat :=
  match numberWords.findIdx? fun word => common t word = word.length with
  | some n => some (n + 1)
  | none => if common t "last" = 4 then some 1 else none

/-- Read a word loosely. -/
def looseWord (now : Int) (s : Loose) (t : Text) : Loose :=
  match wordIndex? 3 months t with
  | some n => { s with parts := { s.parts with month := some n }, isUnderstood := true }
  | none =>
      match specialWord? now s t with
      | some s => s
      | none =>
          if s.waiting = 0 then
            match wordNumber? t with
            | some n => { s with waiting := n, isUnderstood := true }
            | none => s
          else
            match countedWord? now s t with
            | some p => ⟨p, 0, true⟩
            | none => s

/-- Take a number without a unit for what is missing. -/
def settle (s : Loose) : Loose :=
  let n := s.waiting
  let p := s.parts
  let settled :=
    if n = 0 then p
    else if p.day.isNone ∧ n < 32 then { p with day := some n }
    else if p.month.isNone ∧ n < 13 then { p with month := some (n - 1) }
    else if p.year.isNone then { p with year := if n = 70 then some 1970 else yearOf? n }
    else p
  { s with parts := settled, waiting := 0 }

/-- Read digits loosely. -/
def looseDigits (now : Int) (s : Loose) (t : Text) : Loose × Text :=
  let s := { settle s with isUnderstood := true }
  match readNumbers? now s.parts t with
  | some (p, rest) => ({ s with parts := p }, rest)
  | none =>
      let (n, rest) := number t
      let isPadded := t.head? = some '0' && 2 < t.length - rest.length
      (if isPadded then s else { s with waiting := n }, rest)

/-- Read a text loosely, in at most `fuel` steps. -/
def readLoose (now : Int) : Nat → Loose → Text → Loose
  | 0, s, _ => s
  | _, s, [] => s
  | fuel + 1, s, c :: rest =>
      if c.isDigit then
        let (s, rest) := looseDigits now s (c :: rest)
        readLoose now fuel s rest
      else if c.isAlpha then
        readLoose now fuel (looseWord now s (c :: rest)) (rest.dropWhile Char.isAlpha)
      else readLoose now fuel s rest

/-- The point in time that a text says loosely. -/
def loose? (now : Int) (t : Text) : Option Int :=
  let start := { Parts.ofTime now with year := none, month := none, day := none }
  let s := settle (readLoose now (t.length + 1) { parts := start } t)
  if s.isUnderstood then some (goBack now s.parts 0).time else none

/-- The point in time that a text means at present. -/
def read? (now : Int) (t : Text) : Option Int := strict? now t <|> loose? now t

end CleanDiff.WrittenDate
