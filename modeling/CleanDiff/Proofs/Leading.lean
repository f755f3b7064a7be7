import CleanDiff.Proofs.NodeChange

/-!
# Where a path leads, told by places

A trail carries the nodes that it passes, and these are other ones after any change below
them. A place is only names, so it is places that can be compared between two disks.

Following a path is given as a relation first, one case for each way in which it goes on or
ends (`Leads`, with `follow_eq_ok_iff`). From it: a path leads to a directory of the tree or
to an entry of one, there or free (`Leads.on`), and **a disk that has the directories and the
links of another one leads a path to the same place** (`Leads.kept`), whatever has become of
the files. What is said of following is then said of written paths, which begin at the root or
at the current directory (`locate_on`, `locate_kept`).
-/

namespace CleanDiff.Disk

/-- The place that is led to: of the node, or of the free name. -/
def Place.names : Place → List Bytes
  | .found trail => Disk.names trail
  | .free parent name => Disk.names parent ++ [name]

theorem names_cons (name : Bytes) (node : Node) (trail : Trail) :
    names ((name, node) :: trail) = names trail ++ [name] := by simp [names]

theorem names_tail (trail : Trail) : names trail.tail = (names trail).dropLast := by
  cases trail with
  | nil => rfl
  | cons entry trail => simp [names]

variable {d d' : Disk}

/-! ### Trails through directories -/

/-- The trail goes from the root from directory to directory. -/
inductive Through (d : Disk) : Trail → Prop
  | root (isDir : d.root.isDir = true) : d.Through []
  | down {trail : Trail} {name : Bytes} {node : Node} (outer : d.Through trail)
      (child : (d.nodeAt trail).child? name = some node) (isDir : node.isDir = true) :
      d.Through ((name, node) :: trail)

theorem Through.isDir {trail : Trail} (h : d.Through trail) : (d.nodeAt trail).isDir = true := by
  cases h with
  | root isDir => exact isDir
  | down outer child isDir => exact isDir

theorem Through.tail {trail : Trail} (h : d.Through trail) : d.Through trail.tail := by
  cases h with
  | root isDir => exact .root isDir
  | down outer child isDir => exact outer

theorem Through.get?_names {trail : Trail} (h : d.Through trail) :
    d.root.get? (names trail) = some (d.nodeAt trail) := by
  induction h with
  | root isDir => rfl
  | @down trail name node outer child isDir ih =>
    rw [names_cons, Node.get?_append, ih, Option.bind_some, Node.get?, child]
    rfl

/-- Looking up a name in the directory at the end of a trail is looking up its place. -/
theorem Through.get?_append_name {trail : Trail} (h : d.Through trail) (name : Bytes) :
    d.root.get? (names trail ++ [name]) = (d.nodeAt trail).child? name := by
  rw [Node.get?_append, h.get?_names, Option.bind_some, Node.get?]
  cases (d.nodeAt trail).child? name <;> rfl

/-- Every directory of the tree is led to by a trail. -/
theorem exists_trailOf {trail : Trail} (htrail : d.Through trail) {place : List Bytes}
    {node : Node} (h : (d.nodeAt trail).get? place = some node) (hdir : node.isDir = true) :
    ∃ goal, trailOf (d.nodeAt trail) trail place = some goal ∧ d.Through goal ∧
      names goal = names trail ++ place := by
  induction place generalizing trail with
  | nil => exact ⟨trail, rfl, htrail, by simp⟩
  | cons name place ih =>
    obtain ⟨inner, hchild, hrest⟩ := Node.get?_cons_eq_some_iff.1 h
    have hinner : inner.isDir = true := by
      cases place with
      | nil =>
        obtain rfl : inner = node := by simpa [Node.get?] using hrest
        exact hdir
      | cons next rest =>
        obtain ⟨_, hnext, -⟩ := Node.get?_cons_eq_some_iff.1 hrest
        exact isDir_of_child? hnext
    obtain ⟨goal, hgoal, hthrough, hnames⟩ :=
      @ih ((name, inner) :: trail) (htrail.down hchild hinner) hrest
    refine ⟨goal, ?_, hthrough, ?_⟩
    · rw [trailOf, hchild]
      exact hgoal
    · rw [hnames, names_cons, List.append_assoc, List.singleton_append]

/-! ### Following as a relation -/

/-- A component that stands for an entry of a directory. -/
structure IsEntry (name : Bytes) : Prop where
  ne_nil : name ≠ []
  ne_dot : name ≠ dot
  ne_dotDot : name ≠ dotDot

/-- A component that is looked up in the directory at the end of a trail. -/
structure LooksUp (d : Disk) (trail : Trail) (name : Bytes) : Prop extends IsEntry name where
  searchable : (d.nodeAt trail).isSearchable = true
  length_le : name.length ≤ maxName

/-- A component leads from one directory to another without a link. -/
inductive Passes (d : Disk) (trail : Trail) : Bytes → Trail → Prop
  | empty : d.Passes trail [] trail
  | stay (searchable : (d.nodeAt trail).isSearchable = true) : d.Passes trail dot trail
  | up (searchable : (d.nodeAt trail).isSearchable = true) : d.Passes trail dotDot trail.tail
  | down {name : Bytes} {inner : Node} (looksUp : d.LooksUp trail name)
      (child : (d.nodeAt trail).child? name = some inner) (isDir : inner.isDir = true) :
      d.Passes trail name ((name, inner) :: trail)

/-- The entry of a directory as a place, there or free. -/
def entryPlace (d : Disk) (trail : Trail) (name : Bytes) : Place :=
  match (d.nodeAt trail).child? name with
  | none => .free trail name
  | some node => .found ((name, node) :: trail)

theorem names_entryPlace (d : Disk) (trail : Trail) (name : Bytes) :
    (d.entryPlace trail name).names = names trail ++ [name] := by
  unfold entryPlace
  split
  · rfl
  · exact names_cons _ _ _

/-- Where what a link names is followed from. -/
def linkStart (target : Bytes) (trail : Trail) : Trail :=
  if target.head? = some slash then [] else trail

theorem Through.linkStart {trail : Trail} (h : d.Through trail) (hroot : d.root.isDir = true)
    (target : Bytes) : d.Through (linkStart target trail) := by
  unfold Disk.linkStart
  split
  · exact .root hroot
  · exact h

theorem names_linkStart {trail trail' : Trail} (h : names trail' = names trail) (target : Bytes) :
    names (linkStart target trail') = names (linkStart target trail) := by
  unfold linkStart
  split
  · rfl
  · exact h

/-- Components lead from the end of a trail to a place: they end at a directory or at an
entry, pass a component, or follow a link. -/
inductive Leads (d : Disk) (last : Bool) : Nat → Trail → List Bytes → Place → Prop
  | stop {links : Nat} {trail : Trail} : d.Leads last links trail [] (.found trail)
  | entry {links : Nat} {trail : Trail} {name : Bytes} (looksUp : d.LooksUp trail name)
      (noLink : last = true → ∀ target, (d.nodeAt trail).child? name ≠ some (.link target)) :
      d.Leads last links trail [name] (d.entryPlace trail name)
  | pass {links : Nat} {trail next : Trail} {name : Bytes} {rest : List Bytes} {place : Place}
      (passes : d.Passes trail name next) (leads : d.Leads last links next rest place) :
      d.Leads last links trail (name :: rest) place
  | link {links : Nat} {trail : Trail} {name target : Bytes} {rest : List Bytes} {place : Place}
      (looksUp : d.LooksUp trail name)
      (child : (d.nodeAt trail).child? name = some (.link target))
      (followed : ¬ (rest = [] ∧ (!last) = true))
      (leads : d.Leads last links (linkStart target trail) (components target ++ rest) place) :
      d.Leads last (links + 1) trail (name :: rest) place

theorem leads_of_follow {last : Bool} {links : Nat} {trail : Trail} {path : List Bytes}
    {place : Place} (h : d.follow last links trail path = .ok place) :
    d.Leads last links trail path place := by
  fun_induction d.follow last links trail path with
  | case1 links trail => exact Except.ok.inj h ▸ .stop
  | case2 links trail rest ih => exact .pass .empty (ih h)
  | case3 links trail name rest hnil hsearch => exact absurd h (by simp)
  | case4 links trail rest hsearch hnil ih => exact .pass (.stay (by simpa using hsearch)) (ih h)
  | case5 links trail rest hsearch hnil hdot ih => exact .pass (.up (by simpa using hsearch)) (ih h)
  | case6 links trail name rest hnil hsearch hdot hup hlong => exact absurd h (by simp)
  | case7 links trail name hnil hsearch hdot hup hlong hchild =>
    have hentry : d.entryPlace trail name = .free trail name := by rw [entryPlace, hchild]
    obtain rfl := Except.ok.inj h
    rw [← hentry]
    exact .entry ⟨⟨hnil, hdot, hup⟩, by simpa using hsearch, by omega⟩ (by simp [hchild])
  | case8 links trail name rest hnil hsearch hdot hup hlong hchild hrest => exact absurd h (by simp)
  | case9 links trail name rest hnil hsearch hdot hup hlong target hchild hend =>
    obtain ⟨rfl, hlast⟩ := hend
    have hentry : d.entryPlace trail name = .found ((name, .link target) :: trail) := by
      rw [entryPlace, hchild]
    obtain rfl := Except.ok.inj h
    rw [← hentry]
    refine .entry ⟨⟨hnil, hdot, hup⟩, by simpa using hsearch, by omega⟩ fun htrue => ?_
    exact absurd hlast (by simp [htrue])
  | case10 trail name rest hnil hsearch hdot hup hlong target hchild hend =>
    exact absurd h (by simp)
  | case11 trail name rest hnil hsearch hdot hup hlong target hchild hend links start ih =>
    exact .link ⟨⟨hnil, hdot, hup⟩, by simpa using hsearch, by omega⟩ hchild hend
      (by simpa [start, linkStart] using ih h)
  | case12 links trail name hnil hsearch hdot hup hlong content mode hchild =>
    have hentry : d.entryPlace trail name = .found ((name, .file content mode) :: trail) := by
      rw [entryPlace, hchild]
    obtain rfl := Except.ok.inj h
    rw [← hentry]
    exact .entry ⟨⟨hnil, hdot, hup⟩, by simpa using hsearch, by omega⟩ (by simp [hchild])
  | case13 links trail name rest hnil hsearch hdot hup hlong content mode hchild hrest =>
    exact absurd h (by simp)
  | case14 links trail name rest hnil hsearch hdot hup hlong entries mode hchild ih =>
    exact .pass (.down ⟨⟨hnil, hdot, hup⟩, by simpa using hsearch, by omega⟩ hchild rfl) (ih h)

theorem follow_of_leads {last : Bool} {links : Nat} {trail : Trail} {path : List Bytes}
    {place : Place} (h : d.Leads last links trail path place) :
    d.follow last links trail path = .ok place := by
  induction h with
  | stop => rw [follow]
  | @entry links trail name looksUp noLink =>
    obtain ⟨⟨hnil, hdot, hup⟩, hsearch, hlength⟩ := looksUp
    cases hchild : (d.nodeAt trail).child? name with
    | none => simp [follow, entryPlace, hsearch, hnil, hdot, hup, Nat.not_lt.2 hlength, hchild]
    | some node =>
      cases node with
      | file content mode =>
        simp [follow, entryPlace, hsearch, hnil, hdot, hup, Nat.not_lt.2 hlength, hchild]
      | dir entries mode =>
        simp [follow, entryPlace, hsearch, hnil, hdot, hup, Nat.not_lt.2 hlength, hchild]
      | link target =>
        have hlast : last = false := by
          by_contra htrue
          exact noLink (by simpa using htrue) target hchild
        simp [follow, entryPlace, hsearch, hnil, hdot, hup, Nat.not_lt.2 hlength, hchild, hlast]
  | @pass links trail next name rest place passes leads ih =>
    rw [← ih]
    cases passes with
    | empty => simp [follow]
    | stay searchable => simp [follow, searchable, dot]
    | up searchable => simp [follow, searchable, dot, dotDot]
    | @down _ inner looksUp child isDir =>
      obtain ⟨⟨hnil, hdot, hup⟩, hsearch, hlength⟩ := looksUp
      obtain ⟨entries, mode, rfl⟩ := Node.exists_entries_of_isDir isDir
      simp [follow, hsearch, hnil, hdot, hup, Nat.not_lt.2 hlength, child]
  | @link links trail name target rest place looksUp child followed leads ih =>
    obtain ⟨⟨hnil, hdot, hup⟩, hsearch, hlength⟩ := looksUp
    rw [← ih, follow.eq_2, if_neg hnil, if_neg (by simp [hsearch]), if_neg hdot, if_neg hup,
      if_neg (Nat.not_lt.2 hlength), child]
    exact if_neg followed

theorem follow_eq_ok_iff {last : Bool} {links : Nat} {trail : Trail} {path : List Bytes}
    {place : Place} :
    d.follow last links trail path = .ok place ↔ d.Leads last links trail path place :=
  ⟨leads_of_follow, follow_of_leads⟩

/-! ### What is led to -/

/-- The place is that of a directory of the tree, or an entry of one. -/
inductive Place.On (d : Disk) : Place → Prop
  | directory {trail : Trail} (h : d.Through trail) : Place.On d (.found trail)
  | entry {trail : Trail} {name : Bytes} (h : d.Through trail) :
      Place.On d (d.entryPlace trail name)

theorem Through.passes {trail next : Trail} {name : Bytes} (h : d.Through trail)
    (hpasses : d.Passes trail name next) : d.Through next := by
  cases hpasses with
  | empty => exact h
  | stay => exact h
  | up => exact h.tail
  | down looksUp child isDir => exact h.down child isDir

theorem Leads.on {last : Bool} {links : Nat} {trail : Trail} {path : List Bytes} {place : Place}
    (h : d.Leads last links trail path place) (htrail : d.Through trail)
    (hroot : d.root.isDir = true) : place.On d := by
  induction h with
  | stop => exact .directory htrail
  | entry looksUp noLink => exact .entry htrail
  | pass passes leads ih => exact ih (htrail.passes passes)
  | @link links trail name target rest place looksUp child followed leads ih =>
    exact ih (htrail.linkStart hroot target)

theorem Place.On.get?_of_found {trail : Trail} (h : (Place.found trail).On d) :
    d.root.get? (Disk.names trail) = some (d.nodeAt trail) := by
  generalize hplace : Place.found trail = place at h
  cases h with
  | directory h =>
    obtain rfl := Place.found.inj hplace
    exact h.get?_names
  | @entry outer name h =>
    have hnames := congrArg Place.names hplace
    rw [names_entryPlace] at hnames
    change Disk.names trail = _ at hnames
    rw [hnames, h.get?_append_name]
    unfold entryPlace at hplace
    split at hplace
    · exact absurd hplace (by simp)
    · next node hchild =>
      obtain rfl := Place.found.inj hplace
      exact hchild

theorem Place.On.through_tail {trail : Trail} (h : (Place.found trail).On d) :
    d.Through trail.tail := by
  generalize hplace : Place.found trail = place at h
  cases h with
  | directory h =>
    obtain rfl := Place.found.inj hplace
    exact h.tail
  | @entry outer name h =>
    unfold entryPlace at hplace
    split at hplace
    · exact absurd hplace (by simp)
    · obtain rfl := Place.found.inj hplace
      exact h

/-- An entry lies in a directory. -/
theorem Place.On.exists_outer {place : Place} (h : place.On d) {front : List Bytes} {name : Bytes}
    (hnames : place.names = front ++ [name]) :
    ∃ outer, d.root.get? front = some outer ∧ outer.isDir = true := by
  cases h with
  | @directory trail h =>
    have hfront : Disk.names trail.tail = front := by
      rw [names_tail, show Disk.names trail = _ from hnames, List.dropLast_concat]
    exact ⟨_, hfront ▸ h.tail.get?_names, h.tail.isDir⟩
  | entry h =>
    rw [names_entryPlace] at hnames
    obtain ⟨rfl, -⟩ := List.append_inj' hnames rfl
    exact ⟨_, h.get?_names, h.isDir⟩

theorem Place.On.get?_of_free {parent : Trail} {name : Bytes} (h : (Place.free parent name).On d) :
    d.Through parent ∧ d.root.get? (Disk.names parent ++ [name]) = none := by
  generalize hplace : Place.free parent name = place at h
  cases h with
  | directory h => exact absurd hplace (by simp)
  | @entry outer name h =>
    unfold entryPlace at hplace
    split at hplace
    · next hchild =>
      obtain ⟨rfl, rfl⟩ := Place.free.inj hplace
      exact ⟨h, by rw [h.get?_append_name, hchild]⟩
    · exact absurd hplace (by simp)

/-- The node at a place that is told by its names. -/
theorem Place.On.found_or_free {place : Place} (h : place.On d) :
    (∃ trail, place = .found trail ∧ d.root.get? place.names = some (d.nodeAt trail)) ∨
      d.root.get? place.names = none := by
  cases hplace : place with
  | found trail => exact .inl ⟨trail, rfl, (hplace ▸ h).get?_of_found⟩
  | free parent name => exact .inr (hplace ▸ h).get?_of_free.2

/-! ### The same place on another disk -/

/-- The second disk has the directories and the links of the first, and its current
directory. -/
structure KeepsWays (d d' : Disk) : Prop where
  current : d'.current = d.current
  gone : d'.gone = d.gone
  ways : ∀ place node, d.root.get? place = some node → node.isFile = false →
    ∃ node', d'.root.get? place = some node' ∧ node'.bare = node.bare

theorem KeepsWays.trans {d'' : Disk} (h : d.KeepsWays d') (h' : d'.KeepsWays d'') :
    d.KeepsWays d'' where
  current := h'.current.trans h.current
  gone := h'.gone.trans h.gone
  ways place node hnode hfile := by
    obtain ⟨node', hnode', hbare⟩ := h.ways place node hnode hfile
    have hfile' : node'.isFile = false := by rw [← Node.isFile_bare, hbare, Node.isFile_bare, hfile]
    obtain ⟨node'', hnode'', hbare'⟩ := h'.ways place node' hnode' hfile'
    exact ⟨node'', hnode'', hbare'.trans hbare⟩

theorem KeepsWays.isDir (h : d.KeepsWays d') {place : List Bytes} {node : Node}
    (hplace : d.root.get? place = some node) (hdir : node.isDir = true) :
    ∃ node', d'.root.get? place = some node' ∧ node'.isDir = true := by
  have hfile : node.isFile = false := by
    obtain ⟨entries, mode, rfl⟩ := Node.exists_entries_of_isDir hdir
    rfl
  obtain ⟨node', hnode', hbare⟩ := h.ways place node hplace hfile
  exact ⟨node', hnode', by rw [← Node.isDir_bare, hbare, Node.isDir_bare, hdir]⟩

theorem KeepsWays.link (h : d.KeepsWays d') {place : List Bytes} {target : Bytes}
    (hplace : d.root.get? place = some (.link target)) :
    d'.root.get? place = some (.link target) := by
  obtain ⟨node', hnode', hbare⟩ := h.ways place _ hplace rfl
  rw [hnode', Node.eq_of_bare_eq hbare rfl]

section Kept

variable {trail trail' : Trail}

theorem KeepsWays.isSearchable (h : d.KeepsWays d') (htrail : d.Through trail)
    (htrail' : d'.Through trail') (hnames : names trail' = names trail) :
    (d'.nodeAt trail').isSearchable = (d.nodeAt trail).isSearchable := by
  have hfile : (d.nodeAt trail).isFile = false := by
    obtain ⟨entries, mode, heq⟩ := Node.exists_entries_of_isDir htrail.isDir
    rw [heq]
    rfl
  obtain ⟨node', hnode', hbare⟩ := h.ways _ _ htrail.get?_names hfile
  have hsame := htrail'.get?_names
  rw [hnames, hnode'] at hsame
  have hmode : (d'.nodeAt trail').mode = (d.nodeAt trail).mode := by
    rw [← Option.some.inj hsame, ← Node.mode_bare, hbare, Node.mode_bare]
  rw [Node.isSearchable, Node.isSearchable, hmode]

theorem KeepsWays.looksUp (h : d.KeepsWays d') (htrail : d.Through trail)
    (htrail' : d'.Through trail') (hnames : names trail' = names trail) {name : Bytes}
    (hname : d.LooksUp trail name) : d'.LooksUp trail' name :=
  { hname with searchable := by rw [h.isSearchable htrail htrail' hnames, hname.searchable] }

theorem KeepsWays.passes (h : d.KeepsWays d') (htrail : d.Through trail)
    (htrail' : d'.Through trail') (hnames : names trail' = names trail) {name : Bytes}
    {next : Trail} (hpasses : d.Passes trail name next) :
    ∃ next', d'.Passes trail' name next' ∧ d'.Through next' ∧ names next' = names next := by
  have hsearch := h.isSearchable htrail htrail' hnames
  cases hpasses with
  | empty => exact ⟨trail', .empty, htrail', hnames⟩
  | stay searchable => exact ⟨trail', .stay (hsearch ▸ searchable), htrail', hnames⟩
  | up searchable =>
    exact ⟨trail'.tail, .up (hsearch ▸ searchable), htrail'.tail, by
      rw [names_tail, names_tail, hnames]⟩
  | @down _ inner looksUp child isDir =>
    have hplace := htrail.get?_append_name name
    rw [child] at hplace
    obtain ⟨inner', hinner', hdir'⟩ := h.isDir hplace isDir
    rw [← hnames, htrail'.get?_append_name] at hinner'
    exact ⟨_, .down (h.looksUp htrail htrail' hnames looksUp) hinner' hdir',
      htrail'.down hinner' hdir', by rw [names_cons, names_cons, hnames]⟩

/-- A disk that has the directories and the links of another one leads a path to the same
place, unless there is a new link there. -/
theorem Leads.kept (hkeeps : d.KeepsWays d') (hroot : d.root.isDir = true)
    (hroot' : d'.root.isDir = true) {last : Bool} {links : Nat} {path : List Bytes} {place : Place}
    (h : d.Leads last links trail path place) (htrail : d.Through trail)
    (htrail' : d'.Through trail') (hnames : names trail' = names trail)
    (hlink : ∀ target, d'.root.get? place.names = some (.link target) →
      d.root.get? place.names = some (.link target)) :
    ∃ place', d'.Leads last links trail' path place' ∧ place'.names = place.names := by
  induction h generalizing trail' with
  | stop => exact ⟨_, .stop, hnames⟩
  | @entry links trail name looksUp noLink =>
    have hlooksUp := hkeeps.looksUp htrail htrail' hnames looksUp
    refine ⟨_, .entry hlooksUp fun hlast target hchild => ?_, ?_⟩
    · rw [names_entryPlace, htrail.get?_append_name, ← hnames, htrail'.get?_append_name] at hlink
      exact noLink hlast target (hlink target hchild)
    · rw [names_entryPlace, names_entryPlace, hnames]
  | pass passes leads ih =>
    obtain ⟨next', hpasses', hnext', hnames'⟩ := hkeeps.passes htrail htrail' hnames passes
    obtain ⟨place', hleads', hplace'⟩ := ih (htrail.passes passes) hnext' hnames' hlink
    exact ⟨place', .pass hpasses' hleads', hplace'⟩
  | @link links trail name target rest place looksUp child followed leads ih =>
    have hplace := htrail.get?_append_name name
    rw [child] at hplace
    have hchild' := hkeeps.link hplace
    rw [← hnames, htrail'.get?_append_name] at hchild'
    obtain ⟨place', hleads', hplace'⟩ := ih (htrail.linkStart hroot target)
      (htrail'.linkStart hroot' target) (names_linkStart hnames target) hlink
    exact ⟨place', .link (hkeeps.looksUp htrail htrail' hnames looksUp) hchild' followed hleads',
      hplace'⟩

end Kept

/-! ### The end of a path -/

/-- The name at the end of a path is the last one of the place that the path leads to as it
is. -/
theorem Leads.names_of_name {links : Nat} {trail : Trail} {path front : List Bytes} {name : Bytes}
    {place : Place} (h : d.Leads false links trail path place) (hpath : path = front ++ [name])
    (hname : IsEntry name) :
    ∃ dir, place.names = dir ++ [name] := by
  induction h generalizing front with
  | stop => exact absurd hpath (by simp)
  | @entry links trail name' looksUp noLink =>
    have hend : [] ++ [name'] = front ++ [name] := hpath
    obtain ⟨-, hsame⟩ := List.append_inj' hend rfl
    exact ⟨names trail, by rw [names_entryPlace, hsame]⟩
  | @pass links trail next first rest place passes leads ih =>
    cases front with
    | cons first' front => exact ih (List.cons.inj hpath).2
    | nil =>
      obtain ⟨rfl, rfl⟩ := List.cons.inj hpath
      cases passes with
      | empty => exact absurd rfl hname.ne_nil
      | stay => exact absurd rfl hname.ne_dot
      | up => exact absurd rfl hname.ne_dotDot
      | down looksUp child isDir =>
        cases leads
        exact ⟨names trail, names_cons _ _ _⟩
  | @link links trail first target rest place looksUp child followed leads ih =>
    cases front with
    | cons first' front =>
      obtain ⟨-, rfl⟩ := List.cons.inj hpath
      exact ih (List.append_assoc _ _ _).symm
    | nil =>
      obtain ⟨-, rfl⟩ := List.cons.inj hpath
      exact absurd ⟨rfl, rfl⟩ followed

/-- Where a path leads to anything but a link, it leads to with a link at its end followed. -/
theorem Leads.true_of_false {links : Nat} {trail : Trail} {path : List Bytes} {place : Place}
    (h : d.Leads false links trail path place) (htrail : d.Through trail)
    (hroot : d.root.isDir = true)
    (hlink : ∀ target, d.root.get? place.names ≠ some (.link target)) :
    d.Leads true links trail path place := by
  induction h with
  | stop => exact .stop
  | @entry links trail name looksUp noLink =>
    rw [names_entryPlace, htrail.get?_append_name] at hlink
    exact .entry looksUp fun _ => hlink
  | pass passes leads ih => exact .pass passes (ih (htrail.passes passes) hlink)
  | @link links trail name target rest place looksUp child followed leads ih =>
    exact .link looksUp child (by simp) (ih (htrail.linkStart hroot target) hlink)

/-! ### Written paths -/

/-- How following a written path begins. No node is looked at for it. -/
inductive Beginning
  | refused (e : IoReason)
  /-- In a directory that has been taken away, by the names of those it lies in. -/
  | lost (stays : List Bytes)
  /-- At a directory that is there, with the components that are followed from it. -/
  | inside (place : List Bytes) (path : List Bytes)

/-- The part of the current directory's place that is there. -/
def live (d : Disk) : List Bytes := d.current.take (d.current.length - d.gone)

def beginning (d : Disk) (path : Bytes) : Beginning :=
  if path = [] then .refused .noSuchFile
  else if path.contains 0 then .refused .zeroByte
  else if maxPath < path.length then .refused .nameTooLong
  else if path.head? = some slash then .inside [] (components path)
  else
    match climb d.gone (components path) with
    | .error e => .refused e
    | .ok (0, rest) => .inside d.live rest
    | .ok (left + 1, _) =>
        .lost ((d.current.drop (d.current.length - d.gone)).take (left + 1))

/-- A disk with a current directory: what has been taken away of its place is a part of it,
and the rest leads to a directory. -/
structure Sound (d : Disk) : Prop where
  gone_le : d.gone ≤ d.current.length
  live : ∃ node, d.root.get? d.live = some node ∧ node.isDir = true

theorem Sound.isDir_root (h : d.Sound) : d.root.isDir = true := by
  obtain ⟨node, hnode, hdir⟩ := h.live
  cases hlive : d.live with
  | nil =>
    rw [hlive] at hnode
    exact Option.some.inj hnode ▸ hdir
  | cons name rest =>
    rw [hlive] at hnode
    obtain ⟨_, hchild, -⟩ := Node.get?_cons_eq_some_iff.1 hnode
    exact isDir_of_child? hchild

theorem Sound.exists_liveTrail (h : d.Sound) :
    ∃ trail, d.liveTrail = some trail ∧ d.Through trail ∧ names trail = d.live := by
  obtain ⟨node, hnode, hdir⟩ := h.live
  obtain ⟨trail, htrail, hthrough, hnames⟩ := exists_trailOf (.root h.isDir_root) hnode hdir
  exact ⟨trail, htrail, hthrough, hnames⟩

theorem KeepsWays.sound (h : d.KeepsWays d') (hd : d.Sound) : d'.Sound where
  gone_le := by rw [h.gone, h.current]; exact hd.gone_le
  live := by
    obtain ⟨node, hnode, hdir⟩ := hd.live
    have hlive : d'.live = d.live := by rw [live, live, h.current, h.gone]
    rw [hlive]
    exact h.isDir hnode hdir

theorem KeepsWays.beginning (h : d.KeepsWays d') (path : Bytes) :
    d'.beginning path = d.beginning path := by
  simp only [Disk.beginning, live, h.current, h.gone]

/-- What a path leads to is what its beginning says. -/
theorem locate_beginning (hd : d.Sound) (path : Bytes) :
    match d.beginning path with
    | .refused e => ∀ last, d.locate last path = .error e
    | .lost stays => ∃ trail, (∀ last, d.locate last path = .ok (.found trail)) ∧
        d.nodeAt trail = .emptyDir ∧ names trail = d.live ++ stays
    | .inside place rest => ∃ trail, d.Through trail ∧ names trail = place ∧
        ∀ last, d.locate last path = d.follow last maxLinks trail rest := by
  obtain ⟨trail, hlive, hthrough, hnames⟩ := hd.exists_liveTrail
  by_cases hnil : path = []
  · simp [beginning, locate, hnil]
  by_cases hzero : 0 ∈ path
  · simp [beginning, locate, hnil, hzero]
  by_cases hlong : maxPath < path.length
  · simp [beginning, locate, hnil, hzero, hlong]
  by_cases habsolute : path.head? = some slash
  · simp only [beginning, locate, hnil, hzero, hlong, habsolute, List.contains_iff_mem, if_false,
      if_true]
    exact ⟨[], .root hd.isDir_root, rfl, fun _ => rfl⟩
  simp only [beginning, locate, hnil, hzero, hlong, habsolute, List.contains_iff_mem, if_false]
  cases hclimb : climb d.gone (components path) with
  | error e => simp [followRelative, hclimb]
  | ok stop =>
    obtain ⟨left, rest⟩ := stop
    cases left with
    | zero => exact ⟨trail, hthrough, hnames, fun last => followRelative_of_zero hclimb hlive⟩
    | succ left =>
      have hfollow : ∀ last, d.followRelative last (components path) = .ok (.found
          (((d.current.drop (d.current.length - d.gone)).take (left + 1)).reverse.map
            (fun name => (name, .emptyDir)) ++ trail)) := by
        intro last
        simp only [followRelative, hclimb, hlive]
      refine ⟨_, hfollow, ?_, by simp [names, ← hnames, Function.comp_def]⟩
      exact nodeAt_of_stays hd.gone_le hclimb (Nat.succ_ne_zero left) (hfollow true)

/-- A path leads to a place of the tree, or to the place of a directory that has been taken
away. -/
theorem locate_on (hd : d.Sound) {last : Bool} {path : Bytes} {place : Place}
    (h : d.locate last path = .ok place) :
    place.On d ∨ ∃ trail, place = .found trail ∧ d.nodeAt trail = .emptyDir := by
  have hlocate := d.locate_beginning hd path
  cases hbeginning : d.beginning path with
  | refused e =>
    rw [hbeginning] at hlocate
    exact absurd h (by simp [hlocate])
  | lost stays =>
    rw [hbeginning] at hlocate
    obtain ⟨trail, hlost, hempty, -⟩ := hlocate
    rw [hlost] at h
    exact .inr ⟨trail, (Except.ok.inj h).symm, hempty⟩
  | inside start path =>
    rw [hbeginning] at hlocate
    obtain ⟨trail, hthrough, -, hfollow⟩ := hlocate
    rw [hfollow, follow_eq_ok_iff] at h
    exact .inl (h.on hthrough hd.isDir_root)

/-- A disk that has the directories and the links of another one leads a path to the same
place, unless there is a new link there. -/
theorem locate_kept (hkeeps : d.KeepsWays d') (hd : d.Sound) {last : Bool} {path : Bytes}
    {place : Place} (h : d.locate last path = .ok place)
    (hlink : ∀ target, d'.root.get? place.names = some (.link target) →
      d.root.get? place.names = some (.link target)) :
    ∃ place', d'.locate last path = .ok place' ∧ place'.names = place.names ∧
      (place'.On d' ∨ ∃ trail, place = .found trail ∧ d.nodeAt trail = .emptyDir) := by
  have hd' := hkeeps.sound hd
  have hlocate := d.locate_beginning hd path
  have hlocate' := d'.locate_beginning hd' path
  rw [hkeeps.beginning] at hlocate'
  cases hbeginning : d.beginning path with
  | refused e =>
    rw [hbeginning] at hlocate
    exact absurd h (by simp [hlocate])
  | lost stays =>
    rw [hbeginning] at hlocate hlocate'
    obtain ⟨trail, hlost, hempty, hnames⟩ := hlocate
    obtain ⟨trail', hlost', -, hnames'⟩ := hlocate'
    rw [hlost] at h
    obtain rfl := Except.ok.inj h
    refine ⟨_, hlost' last, ?_, .inr ⟨trail, rfl, hempty⟩⟩
    rw [Place.names, Place.names, hnames, hnames', live, live, hkeeps.current, hkeeps.gone]
  | inside start path =>
    rw [hbeginning] at hlocate hlocate'
    obtain ⟨trail, hthrough, hnames, hfollow⟩ := hlocate
    obtain ⟨trail', hthrough', hnames', hfollow'⟩ := hlocate'
    rw [hfollow, follow_eq_ok_iff] at h
    obtain ⟨place', hleads', hplace'⟩ := h.kept hkeeps hd.isDir_root hd'.isDir_root hthrough
      hthrough' (hnames'.trans hnames.symm) hlink
    exact ⟨place', by rw [hfollow', follow_eq_ok_iff]; exact hleads', hplace',
      .inl (hleads'.on hthrough' hd'.isDir_root)⟩

/-- Where a path leads to anything but a link, it leads to with a link at its end followed. -/
theorem locate_true_of_false (hd : d.Sound) {path : Bytes} {place : Place}
    (h : d.locate false path = .ok place)
    (hlink : ∀ target, d.root.get? place.names ≠ some (.link target)) :
    d.locate true path = .ok place := by
  have hlocate := d.locate_beginning hd path
  cases hbeginning : d.beginning path with
  | refused e =>
    rw [hbeginning] at hlocate
    exact absurd h (by simp [hlocate])
  | lost stays =>
    rw [hbeginning] at hlocate
    obtain ⟨trail, hlost, -⟩ := hlocate
    rw [hlost] at h ⊢
    exact h
  | inside start path =>
    rw [hbeginning] at hlocate
    obtain ⟨trail, hthrough, -, hfollow⟩ := hlocate
    rw [hfollow, follow_eq_ok_iff] at h ⊢
    exact h.true_of_false hthrough hd.isDir_root hlink

/-- A name at the end of a path stays there on the way out of directories that have been
taken away, if there is a way out. -/
theorem climb_append_name {gone left : Nat} {front rest : List Bytes} {name : Bytes}
    (hname : IsEntry name) (h : climb gone (front ++ [name]) = .ok (left, rest)) :
    left = 0 ∧ ∃ front', rest = front' ++ [name] := by
  induction front generalizing gone with
  | nil =>
    cases gone with
    | zero =>
      obtain ⟨rfl, rfl⟩ := Prod.mk.inj (Except.ok.inj h)
      exact ⟨rfl, [], rfl⟩
    | succ gone =>
      exact absurd h (by simp [climb, hname.ne_nil, hname.ne_dot, hname.ne_dotDot])
  | cons first front ih =>
    cases gone with
    | zero =>
      obtain ⟨rfl, rfl⟩ := Prod.mk.inj (Except.ok.inj h)
      exact ⟨rfl, first :: front, rfl⟩
    | succ gone =>
      rw [List.cons_append, climb] at h
      split at h
      · exact ih h
      · split at h
        · exact ih h
        · exact absurd h (by simp)

/-- A path that ends with a name is followed to the end if it is followed at all. -/
theorem beginning_name {path : Bytes} {front : List Bytes} {name : Bytes}
    (hpath : components path = front ++ [name]) (hname : IsEntry name) :
    (∃ e, d.beginning path = .refused e) ∨
      ∃ start front', d.beginning path = .inside start (front' ++ [name]) := by
  unfold beginning
  split_ifs
  · exact .inl ⟨_, rfl⟩
  · exact .inl ⟨_, rfl⟩
  · exact .inl ⟨_, rfl⟩
  · exact .inr ⟨_, front, by rw [hpath]⟩
  · cases hclimb : climb d.gone (components path) with
    | error e => exact .inl ⟨e, rfl⟩
    | ok stop =>
      obtain ⟨left, rest⟩ := stop
      obtain ⟨rfl, front', rfl⟩ := climb_append_name hname (hpath ▸ hclimb)
      exact .inr ⟨_, front', rfl⟩

/-- The name at the end of a path is the last one of the place that the path leads to as it
is. -/
theorem locate_name (hd : d.Sound) {path : Bytes} {place : Place} {front : List Bytes}
    {name : Bytes} (hpath : components path = front ++ [name]) (hname : IsEntry name)
    (h : d.locate false path = .ok place) :
    place.On d ∧ ∃ dir, place.names = dir ++ [name] := by
  have hlocate := d.locate_beginning hd path
  obtain ⟨e, hbeginning⟩ | ⟨start, front', hbeginning⟩ := d.beginning_name hpath hname
  · rw [hbeginning] at hlocate
    exact absurd h (by simp [hlocate])
  · rw [hbeginning] at hlocate
    obtain ⟨trail, hthrough, -, hfollow⟩ := hlocate
    rw [hfollow, follow_eq_ok_iff] at h
    exact ⟨h.on hthrough hd.isDir_root, h.names_of_name rfl hname⟩

/-! ### The place of a path -/

/-- The place that a path leads to as it is. -/
def placeOf? (d : Disk) (path : Path) : Option (List Bytes) :=
  match d.locate false path.toBytes with
  | .ok place => some place.names
  | .error _ => none

theorem placeOf?_eq_some_iff {path : Path} {names : List Bytes} :
    d.placeOf? path = some names ↔
      ∃ place, d.locate false path.toBytes = .ok place ∧ place.names = names := by
  unfold placeOf?
  cases d.locate false path.toBytes <;> simp

theorem placeOf?_kept (hkeeps : d.KeepsWays d') (hd : d.Sound) {path : Path} {names : List Bytes}
    (hlink : ∀ target, d'.root.get? names = some (.link target) →
      d.root.get? names = some (.link target)) (h : d.placeOf? path = some names) :
    d'.placeOf? path = some names := by
  obtain ⟨place, hlocate, rfl⟩ := placeOf?_eq_some_iff.1 h
  obtain ⟨place', hlocate', hnames, -⟩ := locate_kept hkeeps hd hlocate hlink
  exact placeOf?_eq_some_iff.2 ⟨place', hlocate', hnames⟩

/-- A file at the place that a path leads to is what the path names. -/
theorem look_of_placeOf? (hd : d.Sound) {path : Path} {front : List Bytes} {name : Bytes}
    (hpath : components path.toBytes = front ++ [name]) (hname : IsEntry name)
    {names : List Bytes} (hplace : d.placeOf? path = some names) {node : Node}
    (hfile : node.isFile = true) (hnode : d.root.get? names = some node) :
    d.look true path.toBytes = .ok node := by
  obtain ⟨place, hlocate, rfl⟩ := placeOf?_eq_some_iff.1 hplace
  obtain ⟨hon, -⟩ := locate_name hd hpath hname hlocate
  have hlink : ∀ target, d.root.get? place.names ≠ some (.link target) := by
    intro target htarget
    obtain rfl := Option.some.inj (hnode.symm.trans htarget)
    exact absurd hfile (by simp [Node.isFile])
  have htrue := locate_true_of_false hd hlocate hlink
  obtain ⟨trail, rfl, htrail⟩ | hfree := hon.found_or_free
  · exact look_eq_ok_iff.2 ⟨trail, htrue, Option.some.inj (htrail.symm.trans hnode)⟩
  · exact absurd (hfree.symm.trans hnode) (by simp)

end CleanDiff.Disk
