import CleanDiff.Repository.Ref

/-!
# Branches that follow others

The settings of a branch can say that it follows a reference of a remote
repository: `remote` names that repository, a dot meaning this one, and `merge`
the reference there. What is known here of a remote repository's references lies
under names that its own settings give: a rule such as
`refs/heads/*:refs/remotes/a/*` has the names there on its left and the names here
on its right.
-/

namespace CleanDiff.Repository

/-- The last value of a key that has one. -/
def setting? (s : Settings) (key : Text) : Option Text :=
  ((s.get? (String.ofList key)).bind fun value => value).filter (· ≠ [])

/-- Where a rule keeps a reference of a remote repository. -/
def keptAs? (rule ref : Text) : Option Text :=
  let rule := (Text.after? ['+'] rule).getD rule
  let there := rule.takeWhile (· ≠ ':')
  let here := (rule.dropWhile (· ≠ ':')).tail
  match Text.through? ['*'] there, Text.through? ['*'] here with
  | none, none => if there = ref ∧ here ≠ [] then some here else none
  | some (front, behind), some (hereFront, hereBehind) => do
      let rest ← Text.after? front.dropLast ref
      if behind.isSuffixOf rest then
        return hereFront.dropLast ++ rest.take (rest.length - behind.length) ++ hereBehind
      else none
  | _, _ => none

/-- The name here of a reference of a remote repository. -/
def nameHere? (s : Settings) (remote ref : Text) : Option Text := do
  let key := fun (part : String) => "remote.".toList ++ remote ++ '.' :: part.toList
  let _ ← setting? s (key "url") <|> setting? s (key "pushurl")
  (s.filterMap fun v => if v.1 = key "fetch" then v.2 else none).findSome? fun rule =>
    keptAs? rule ref

/-- The reference that a branch follows, if it names an object. -/
def followed? (d : Disk) (r : Repository) (ref : RefName) : Option Ref := do
  let branch ← ref.branch?
  let s ← Settings.read? d Settings.maxDepth (.ofBytes (inside r.common (name "config")))
  let key := fun (part : String) =>
    "branch.".toList ++ Utf8.decodeLossy branch ++ '.' :: part.toList
  let remote ← setting? s (key "remote")
  let merge ← setting? s (key "merge")
  let target := Utf8.encode (← if remote = ['.'] then some merge else nameHere? s remote merge)
  match if RefName.isValid target then refTarget d r target else .error .broken with
  | .ok (.object id) => some ⟨target, id⟩
  | _ => none

end CleanDiff.Repository
