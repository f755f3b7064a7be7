import CleanDiff.Repository.Ref

/-!
# Logs of references

Beside the branches and `HEAD` a repository keeps logs of where they pointed, a
line for each change: the name of the old object and that of the new one, who made
the change and when, and, behind a tab, what it was. New lines are put at the end.
A line that is not as it should be does not count.
-/

namespace CleanDiff

/-- A change of a reference. -/
structure RefChange where
  /-- The object that the reference has named since then. -/
  id : ObjectId
  /-- When the change was made, in seconds. -/
  time : Int
  message : Bytes
  deriving DecidableEq, Repr

namespace RefChange

/-- The whole number at the head of some bytes, blanks aside. -/
def intAt? (bytes : Bytes) : Option Int :=
  let body := bytes.dropWhile Repository.isSpaceByte
  let (sign, body) := match body with
    | 0x2D :: rest => ((-1 : Int), rest)
    | 0x2B :: rest => (1, rest)
    | _ => (1, body)
  let digits := Utf8.decodeLossy (body.takeWhile fun b => 0x30 ≤ b && b ≤ 0x39)
  if digits = [] then none else some (sign * Int.ofNat (Json.natOfDigits digits))

/-- When a change was made, given who made it and when. The address is between the
last two angle brackets, and without a time behind it the time is zero. -/
def timeOf? (who : Bytes) : Option Int :=
  let back := who.reverse
  let behind := back.takeWhile (· ≠ 0x3E)
  let inner := (back.dropWhile (· ≠ 0x3E)).tail
  if !inner.contains 0x3C || behind.contains 0x3C then none
  else
    match behind.reverse with
    | _ :: time => if time = [] then some 0 else intAt? time
    | [] => some 0

/-- Read a line of a log. -/
def ofLine? (line : Bytes) : Option RefChange := do
  let _ ← PackedRefs.idAt? line
  match line.drop PackedRefs.idWidth with
  | 0x20 :: rest =>
      let id ← PackedRefs.idAt? rest
      let rest := rest.drop PackedRefs.idWidth
      let time ← timeOf? (rest.takeWhile (· ≠ 0x09))
      return ⟨id, time, (rest.dropWhile (· ≠ 0x09)).tail⟩
  | _ => none

/-- The line for a change, given what the reference named before. -/
def line (c : RefChange) (old : Option ObjectId) : Bytes :=
  StoredObject.hexBytes (old.getD (List.replicate 20 0)) ++ 0x20 :: StoredObject.hexBytes c.id ++
    0x20 :: StoredObject.signatureAt c.time ++ 0x09 :: c.message ++ [0x0A]

end RefChange

namespace Repository

/-- The place of the log of a reference. -/
def logPlace (r : Repository) (ref : RefName) : List Bytes :=
  (if ref = RefName.head then r.home else r.common) ++ name "logs" :: ref.parts

/-- The changes of a reference, the latest first. -/
def changes (d : Disk) (r : Repository) (ref : RefName) : List RefChange :=
  match d.contentAt (Disk.written (logPlace r ref)) with
  | .error _ => []
  | .ok content => ((content.splitOn 0x0A).filterMap RefChange.ofLine?).reverse

/-- What a reference named before its last `n` changes. -/
def idBefore? (d : Disk) (r : Repository) (ref : RefName) (n : Nat) : Option ObjectId :=
  (changes d r ref)[n]?.map RefChange.id

/-- What a reference named at some time. Before its first change, it is taken to have
named what it was set to then. -/
def idAtTime? (d : Disk) (r : Repository) (ref : RefName) (time : Int) : Option ObjectId :=
  let all := changes d r ref
  ((all.find? fun c => c.time ≤ time) <|> all.getLast?).map RefChange.id

end Repository

end CleanDiff
