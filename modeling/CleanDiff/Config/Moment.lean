import CleanDiff.Text.Basic

/-!
# Dates and times

A *moment* is a day, a time of day, or both; with both, it may say how far the
clock is from universal time. It is written as in RFC 3339: a day has four digits
for the year and two for the month and for the day, a time has two digits for the
hour, the minute and the second, and between a day and a time stands a `T` or a
blank. A day has to be in the calendar.

The written form of a moment is not unique, and `Moment.toText` gives the one in
which it is shown: with a `T`, in capitals, with at most nine digits behind the
second and no zero at their end.
-/

namespace CleanDiff

/-- A day of the calendar. -/
structure Day where
  year : Nat
  month : Nat
  day : Nat
  deriving DecidableEq, Repr

/-- A time of day; the fraction of a second counts billionths. -/
structure ClockTime where
  hour : Nat
  minute : Nat
  second : Nat
  fraction : Nat
  deriving DecidableEq, Repr

/-- How far a clock is from universal time. -/
inductive ClockOffset
  /-- It shows universal time. -/
  | universal
  /-- It is so many minutes behind, or else ahead. -/
  | minutes (behind : Bool) (count : Nat)
  deriving DecidableEq, Repr

/-- A date, a time, or both. -/
structure Moment where
  day : Option Day
  time : Option ClockTime
  offset : Option ClockOffset
  deriving DecidableEq, Repr

namespace Moment

/-! ### Reading -/

/-- The number that a list of decimal digits writes. -/
def numberOf (digits : Text) : Nat :=
  digits.foldl (fun n c => n * 10 + (c.toNat - '0'.toNat)) 0

/-- Read a number of exactly so many digits that is within bounds. -/
def readNumber (count low high : Nat) (t : Text) : Option (Nat × Text) :=
  let digits := t.take count
  if digits.length = count ∧ digits.all Char.isDigit then
    let n := numberOf digits
    if low ≤ n ∧ n ≤ high then some (n, t.drop count) else none
  else none

/-- What follows a sign. -/
def expect (sign : Char) : Text → Option Text
  | c :: rest => if c = sign then some rest else none
  | [] => none

/-- Has a year a day more than others? -/
def isLeap (year : Nat) : Bool := year % 4 = 0 && (year % 100 ≠ 0 || year % 400 = 0)

/-- The days of a month. -/
def daysIn (year month : Nat) : Nat :=
  if month = 2 then (if isLeap year then 29 else 28)
  else if [4, 6, 9, 11].contains month then 30
  else 31

/-- Read a day. -/
def readDay (t : Text) : Option (Day × Text) := do
  let (year, rest) ← readNumber 4 0 9999 t
  let (month, rest) ← readNumber 2 1 12 (← expect '-' rest)
  let (day, rest) ← readNumber 2 1 31 (← expect '-' rest)
  if day ≤ daysIn year month then return (⟨year, month, day⟩, rest) else none

/-- The fraction of a second that digits behind the point write; what is behind
the ninth digit is cut off. -/
def fractionOf (digits : Text) : Nat :=
  let kept := digits.take 9
  numberOf (kept ++ List.replicate (9 - kept.length) '0')

/-- Read the fraction of a second, which may be left out. -/
def readFraction (t : Text) : Nat × Text :=
  match t with
  | '.' :: rest =>
      let digits := rest.takeWhile Char.isDigit
      if digits = [] then (0, t) else (fractionOf digits, rest.dropWhile Char.isDigit)
  | _ => (0, t)

/-- Read a time of day; a minute may have a leap second. -/
def readTime (t : Text) : Option (ClockTime × Text) := do
  let (hour, rest) ← readNumber 2 0 23 t
  let (minute, rest) ← readNumber 2 0 59 (← expect ':' rest)
  let (second, rest) ← readNumber 2 0 60 (← expect ':' rest)
  let (fraction, rest) := readFraction rest
  return (⟨hour, minute, second, fraction⟩, rest)

/-- Read how far the clock is from universal time. -/
def readOffset (t : Text) : Option (ClockOffset × Text) :=
  match t with
  | [] => none
  | sign :: rest =>
      if sign = 'Z' ∨ sign = 'z' then some (.universal, rest)
      else if sign = '+' ∨ sign = '-' then do
        let (hours, rest) ← readNumber 2 0 23 rest
        let (minutes, rest) ← readNumber 2 0 59 (← expect ':' rest)
        return (.minutes (sign = '-') (60 * hours + minutes), rest)
      else none

/-- Read the time behind a day. -/
def readTimeOfDay (t : Text) : Option ((ClockTime × Option ClockOffset) × Text) :=
  match t with
  | [] => none
  | sign :: rest =>
      if sign = 'T' ∨ sign = 't' ∨ sign = ' ' then do
        let (time, rest) ← readTime rest
        match readOffset rest with
        | some (offset, rest) => return ((time, some offset), rest)
        | none => return ((time, none), rest)
      else none

/-- Read a moment. -/
def read (t : Text) : Option (Moment × Text) :=
  match readDay t with
  | some (day, rest) =>
      match readTimeOfDay rest with
      | some ((time, offset), rest) => some (⟨some day, some time, offset⟩, rest)
      | none => some (⟨some day, none, none⟩, rest)
  | none => (readTime t).map fun r => (⟨none, some r.1, none⟩, r.2)

/-! ### Showing -/

/-- A number with zeros in front, up to so many digits. -/
def padded (count n : Nat) : Text :=
  let digits := (toString n).toList
  List.replicate (count - digits.length) '0' ++ digits

end Moment

def Day.toText (d : Day) : Text :=
  Moment.padded 4 d.year ++ '-' :: (Moment.padded 2 d.month ++ '-' :: Moment.padded 2 d.day)

def ClockTime.toText (t : ClockTime) : Text :=
  let whole := Moment.padded 2 t.hour ++
    ':' :: (Moment.padded 2 t.minute ++ ':' :: Moment.padded 2 t.second)
  if t.fraction = 0 then whole
  else whole ++ '.' :: ((Moment.padded 9 t.fraction).reverse.dropWhile (· = '0')).reverse

/-- No distance is shown as one ahead. -/
def ClockOffset.toText : ClockOffset → Text
  | .universal => ['Z']
  | .minutes behind count =>
      (if behind ∧ count ≠ 0 then '-' else '+') ::
        (Moment.padded 2 (count / 60) ++ ':' :: Moment.padded 2 (count % 60))

/-- The form in which a moment is shown. -/
def Moment.toText (m : Moment) : Text :=
  let day := (m.day.map Day.toText).getD []
  let time := (m.time.map ClockTime.toText).getD []
  let between := if m.day.isSome ∧ m.time.isSome then ['T'] else []
  day ++ between ++ time ++ (m.offset.map ClockOffset.toText).getD []

end CleanDiff
