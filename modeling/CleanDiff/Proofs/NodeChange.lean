import CleanDiff.Proofs.NodeTree

/-!
# Changing one place of a tree

Putting a node at a place changes the tree at and below this place only: everywhere else
the same nodes are found, apart from the entries of the directories that lead there
(`get?_set_append`, `bare_get?_set`). What was put at a free place is taken away again
without a trace: **the tree is then the very tree it was** (`set_none_set`), entries in
their old order, and two nodes put at one place leave the second (`set_set`). So what a
sequence of changes of one file leaves behind is read off its last change.

A tree *grows* into another if everything in it is kept and what is new are directories
(`Grows`). Its files are then the same ones.
-/

namespace CleanDiff.Node

/-- A node without what lies below it. -/
def bare : Node → Node
  | .dir _ mode => .dir [] mode
  | .file content mode => .file content mode
  | .link target => .link target

@[simp] theorem isDir_bare (n : Node) : n.bare.isDir = n.isDir := by cases n <;> rfl

@[simp] theorem isFile_bare (n : Node) : n.bare.isFile = n.isFile := by cases n <;> rfl

@[simp] theorem mode_bare (n : Node) : n.bare.mode = n.mode := by cases n <;> rfl

theorem bare_of_not_isDir {n : Node} (h : n.isDir = false) : n.bare = n := by
  cases n with
  | dir entries mode => exact absurd h (by simp [isDir])
  | file content mode => rfl
  | link target => rfl

theorem eq_of_bare_eq {n inner : Node} (hbare : n.bare = inner.bare) (h : inner.isDir = false) :
    n = inner := by
  have hdir : n.isDir = false := by rw [← isDir_bare, hbare, isDir_bare, h]
  rw [← bare_of_not_isDir hdir, hbare, bare_of_not_isDir h]

theorem exists_entries_of_isDir {n : Node} (h : n.isDir = true) :
    ∃ entries mode, n = .dir entries mode := by
  cases n with
  | dir entries mode => exact ⟨entries, mode, rfl⟩
  | file content mode => exact absurd h (by simp [isDir])
  | link target => exact absurd h (by simp [isDir])

/-! ### One entry -/

theorem lookup_cons_of_ne {name : Bytes} {entry : Bytes × Node} (h : name ≠ entry.1)
    (entries : List (Bytes × Node)) : (entry :: entries).lookup name = entries.lookup name := by
  obtain ⟨key, value⟩ := entry
  rw [List.lookup_cons, beq_eq_false_iff_ne.2 h]

theorem lookup_setEntry_self (name : Bytes) (n : Node) (entries : List (Bytes × Node)) :
    (setEntry name (some n) entries).lookup name = some n := by
  induction entries with
  | nil => simp [setEntry]
  | cons entry entries ih =>
    rw [setEntry]
    split
    · simp
    · next hne => rw [lookup_cons_of_ne (Ne.symm hne), ih]

theorem lookup_setEntry_of_ne {name other : Bytes} (h : other ≠ name) (n : Node)
    (entries : List (Bytes × Node)) :
    (setEntry name (some n) entries).lookup other = entries.lookup other := by
  induction entries with
  | nil => simp [setEntry, h]
  | cons entry entries ih =>
    rw [setEntry]
    split
    · next heq => rw [lookup_cons_of_ne h, lookup_cons_of_ne (heq ▸ h)]
    · rw [List.lookup_cons, List.lookup_cons, ih]

theorem setEntry_setEntry (name : Bytes) (n n' : Node) (entries : List (Bytes × Node)) :
    setEntry name (some n') (setEntry name (some n) entries) = setEntry name (some n') entries := by
  induction entries with
  | nil => simp [setEntry]
  | cons entry entries ih =>
    rw [setEntry, setEntry]
    split
    · simp [setEntry]
    · next hne => rw [setEntry, if_neg hne, ih]

theorem setEntry_lookup {name : Bytes} {n : Node} {entries : List (Bytes × Node)}
    (h : entries.lookup name = some n) : setEntry name (some n) entries = entries := by
  induction entries with
  | nil => exact absurd h (by simp)
  | cons entry entries ih =>
    rw [setEntry]
    split
    · next heq =>
      obtain ⟨key, value⟩ := entry
      rw [← heq, List.lookup_cons_self] at h
      rw [← heq, ← Option.some.inj h]
    · next hne =>
      rw [lookup_cons_of_ne (Ne.symm hne)] at h
      rw [ih h]

/-- An entry that was new is taken away again without a trace. -/
theorem setEntry_none_setEntry {name : Bytes} {entries : List (Bytes × Node)}
    (h : entries.lookup name = none) (n : Node) :
    setEntry name none (setEntry name (some n) entries) = entries := by
  induction entries with
  | nil => simp [setEntry]
  | cons entry entries ih =>
    have hne : entry.1 ≠ name := by
      rintro rfl
      exact absurd h (by simp)
    rw [lookup_cons_of_ne (Ne.symm hne)] at h
    rw [setEntry, if_neg hne, setEntry, if_neg hne, ih h]

/-! ### One place -/

/-- Below the first name of a place, a directory is changed in the entry with it. -/
theorem set_cons {name : Bytes} {place : List Bytes} {entries : List (Bytes × Node)} {inner : Node}
    (hne : place ≠ []) (h : entries.lookup name = some inner) (n : Option Node) (mode : Nat) :
    set n (name :: place) (.dir entries mode) =
      .dir (setEntry name (some (set n place inner)) entries) mode := by
  obtain ⟨next, rest, rfl⟩ := List.exists_cons_of_ne_nil hne
  rw [set, h]
  simp

/-- Where the first name of a place leads nowhere, nothing is changed. -/
theorem set_cons_of_none {name : Bytes} {place : List Bytes} {entries : List (Bytes × Node)}
    (hne : place ≠ []) (h : entries.lookup name = none) (n : Option Node) (mode : Nat) :
    set n (name :: place) (.dir entries mode) = .dir entries mode := by
  obtain ⟨next, rest, rfl⟩ := List.exists_cons_of_ne_nil hne
  rw [set, h]
  simp

theorem set_of_not_isDir {n : Node} (h : n.isDir = false) {place : List Bytes} (hne : place ≠ [])
    (inner : Option Node) : set inner place n = n := by
  obtain ⟨name, rest, rfl⟩ := List.exists_cons_of_ne_nil hne
  cases n with
  | dir entries mode => exact absurd h (by simp [isDir])
  | file content mode => cases rest <;> rfl
  | link target => cases rest <;> rfl

/-- What is found at and below a place at which a node was put. -/
theorem get?_set_append {n outer : Node} {front : List Bytes} (houter : n.get? front = some outer)
    (hdir : outer.isDir = true) (name : Bytes) (inner : Node) (behind : List Bytes) :
    (n.set (some inner) (front ++ [name])).get? (front ++ [name] ++ behind) =
      inner.get? behind := by
  induction front generalizing n with
  | nil =>
    obtain rfl : n = outer := by simpa [get?] using houter
    obtain ⟨entries, mode, rfl⟩ := exists_entries_of_isDir hdir
    simp [set, get?, child?, lookup_setEntry_self]
  | cons first front ih =>
    obtain ⟨next, hnext, hrest⟩ := get?_cons_eq_some_iff.1 houter
    obtain ⟨entries, mode, rfl⟩ := exists_entries_of_isDir (Disk.isDir_of_child? hnext)
    rw [List.cons_append, set_cons (by simp) hnext, List.cons_append, get?, child?,
      lookup_setEntry_self, Option.bind_some, ih hrest]

theorem get?_set_self {n outer : Node} {front : List Bytes} (houter : n.get? front = some outer)
    (hdir : outer.isDir = true) (name : Bytes) (inner : Node) :
    (n.set (some inner) (front ++ [name])).get? (front ++ [name]) = some inner := by
  have hget := get?_set_append houter hdir name inner []
  rwa [List.append_nil] at hget

/-- Nothing lies below a place at which there is no directory. -/
theorem eq_of_begins {n inner : Node} {place other : List Bytes}
    (hplace : ∀ old, n.get? place = some old → old.isDir = false) (hbegins : place <+: other)
    (h : n.get? other = some inner) : other = place := by
  obtain ⟨behind, rfl⟩ := hbegins
  rw [get?_append] at h
  obtain ⟨old, hold, hbehind⟩ := Option.bind_eq_some_iff.1 h
  obtain rfl | hne := eq_or_ne behind []
  · exact List.append_nil place
  · exact absurd hbehind (by simp [get?_of_ne_nil (hplace old hold) hne])

/-- Elsewhere the same nodes are found, apart from what lies below them. -/
theorem bare_get?_set (n inner : Node) {place other : List Bytes} (h : ¬ place <+: other) :
    ((n.set (some inner) place).get? other).map bare = (n.get? other).map bare := by
  induction place generalizing n other with
  | nil => exact absurd List.nil_prefix h
  | cons name place ih =>
    cases hdir : n.isDir with
    | false => rw [set_of_not_isDir hdir (by simp)]
    | true =>
      obtain ⟨entries, mode, rfl⟩ := exists_entries_of_isDir hdir
      -- Every change of the directory gives one entry a new node.
      have hchange : set (some inner) (name :: place) (.dir entries mode) = .dir entries mode ∨
          ∃ new, set (some inner) (name :: place) (.dir entries mode) =
            .dir (setEntry name (some new) entries) mode ∧ ∀ rest, ¬ place <+: rest →
              (new.get? rest).map bare = ((entries.lookup name).bind (·.get? rest)).map bare := by
        obtain rfl | hne := eq_or_ne place []
        · exact .inr ⟨inner, rfl, fun rest hrest => absurd List.nil_prefix hrest⟩
        · cases hlookup : entries.lookup name with
          | none => exact .inl (set_cons_of_none hne hlookup _ _)
          | some next =>
            exact .inr ⟨_, set_cons hne hlookup _ _, fun rest hrest => by
              rw [Option.bind_some, ih next hrest]⟩
      obtain hsame | ⟨new, hnew, hbelow⟩ := hchange
      · rw [hsame]
      · rw [hnew]
        cases other with
        | nil => rfl
        | cons first rest =>
          rw [get?, get?, child?, child?]
          by_cases hfirst : first = name
          · subst hfirst
            rw [lookup_setEntry_self, Option.bind_some]
            exact hbelow rest fun hprefix => h (List.cons_prefix_cons.2 ⟨rfl, hprefix⟩)
          · rw [lookup_setEntry_of_ne hfirst]

theorem set_set (n inner inner' : Node) (place : List Bytes) :
    set (some inner') place (set (some inner) place n) = set (some inner') place n := by
  induction place generalizing n with
  | nil => rfl
  | cons name place ih =>
    cases hdir : n.isDir with
    | false => rw [set_of_not_isDir hdir (by simp), set_of_not_isDir hdir (by simp)]
    | true =>
      obtain ⟨entries, mode, rfl⟩ := exists_entries_of_isDir hdir
      obtain rfl | hne := eq_or_ne place []
      · simp [set, setEntry_setEntry]
      · cases hlookup : entries.lookup name with
        | none => rw [set_cons_of_none hne hlookup, set_cons_of_none hne hlookup]
        | some next =>
          rw [set_cons hne hlookup, set_cons hne (lookup_setEntry_self _ _ _),
            set_cons hne hlookup, setEntry_setEntry, ih]

/-- What was put at a free place is taken away again without a trace. -/
theorem set_none_set {n : Node} {place : List Bytes} (h : n.get? place = none) (inner : Node) :
    set none place (set (some inner) place n) = n := by
  induction place generalizing n with
  | nil => exact absurd h (by simp [get?])
  | cons name place ih =>
    cases hdir : n.isDir with
    | false => rw [set_of_not_isDir hdir (by simp), set_of_not_isDir hdir (by simp)]
    | true =>
      obtain ⟨entries, mode, rfl⟩ := exists_entries_of_isDir hdir
      rw [get?, child?] at h
      cases hlookup : entries.lookup name with
      | none =>
        obtain rfl | hne := eq_or_ne place []
        · simp [set, setEntry_none_setEntry hlookup]
        · rw [set_cons_of_none hne hlookup, set_cons_of_none hne hlookup]
      | some next =>
        rw [hlookup, Option.bind_some] at h
        have hne : place ≠ [] := by
          rintro rfl
          exact absurd h (by simp [get?])
        rw [set_cons hne hlookup, set_cons hne (lookup_setEntry_self _ _ _), setEntry_setEntry,
          ih h, setEntry_lookup hlookup]

/-! ### Growing -/

/-- The second tree keeps what the first has, and what is new in it are directories. -/
structure Grows (n n' : Node) : Prop where
  kept : ∀ place inner, n.get? place = some inner →
    ∃ inner', n'.get? place = some inner' ∧ inner'.bare = inner.bare
  isDir : ∀ place inner', n.get? place = none → n'.get? place = some inner' → inner'.isDir = true

theorem Grows.refl (n : Node) : Grows n n :=
  ⟨fun _ inner h => ⟨inner, h, rfl⟩, fun _ _ hnone hsome => absurd hsome (by simp [hnone])⟩

theorem Grows.trans {n n' n'' : Node} (h : Grows n n') (h' : Grows n' n'') : Grows n n'' where
  kept place inner hinner := by
    obtain ⟨inner', hinner', hbare⟩ := h.kept place inner hinner
    obtain ⟨inner'', hinner'', hbare'⟩ := h'.kept place inner' hinner'
    exact ⟨inner'', hinner'', hbare'.trans hbare⟩
  isDir place inner'' hnone hinner'' := by
    cases hplace : n'.get? place with
    | none => exact h'.isDir place inner'' hplace hinner''
    | some inner' =>
      obtain ⟨inner, hinner, hbare⟩ := h'.kept place inner' hplace
      obtain rfl : inner = inner'' := Option.some.inj (hinner.symm.trans hinner'')
      rw [← isDir_bare, hbare, isDir_bare]
      exact h.isDir place inner' hnone hplace

/-- An empty directory at a free place is all that is new. -/
theorem grows_set {n outer : Node} {front : List Bytes} {name : Bytes}
    (houter : n.get? front = some outer) (hdir : outer.isDir = true)
    (hfree : n.get? (front ++ [name]) = none) (mode : Nat) :
    Grows n (n.set (some (.dir [] mode)) (front ++ [name])) where
  kept place inner hinner := by
    have hprefix : ¬ front ++ [name] <+: place := by
      rintro ⟨behind, rfl⟩
      rw [get?_append, hfree] at hinner
      exact absurd hinner (by simp)
    have hbare := bare_get?_set n (.dir [] mode) hprefix
    rw [hinner] at hbare
    exact Option.map_eq_some_iff.1 hbare
  isDir place inner' hnone hinner' := by
    by_cases hprefix : front ++ [name] <+: place
    · obtain ⟨behind, rfl⟩ := hprefix
      rw [get?_set_append houter hdir] at hinner'
      cases behind with
      | nil =>
        obtain rfl : dir [] mode = inner' := by simpa [get?] using hinner'
        rfl
      | cons first rest => exact absurd hinner' (by simp [get?, child?])
    · have hbare := bare_get?_set n (.dir [] mode) hprefix
      rw [hnone, hinner'] at hbare
      exact absurd hbare (by simp)

end CleanDiff.Node
