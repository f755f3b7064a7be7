import CleanDiff.Disk.Walk

/-!
# Following a path below a directory

The path of a place below a directory is the path of the directory with names behind it.
Following it goes to the directory first and then from name to name: the components of the
path are those of the directory and the names (`components_below`), and where following
the first ones ends, the others are followed from there (`exists_follow_append`). Links on
the way to the directory use up some of the links that may be followed, which is why it is
not said how many are left.

Names lead from one node to the next (`follow_dir`, `follow_last`), so what such a path
names can be read off the tree of the directory (`get?_of_follow`). There is one case
apart: in a directory that has been taken away no name leads anywhere (`look_dir_cases`).
-/

namespace CleanDiff.Disk

/-! ### Names and the components of a path -/

/-- A name that an entry of a directory can have. -/
structure IsName (name : Bytes) : Prop where
  ne_nil : name ≠ []
  ne_dot : name ≠ dot
  ne_dotDot : name ≠ dotDot
  noSlash : slash ∉ name
  noZero : 0 ∉ name
  length_le : name.length ≤ maxName

instance (name : Bytes) : Decidable (IsName name) :=
  decidable_of_iff (name ≠ [] ∧ name ≠ dot ∧ name ≠ dotDot ∧ slash ∉ name ∧ 0 ∉ name ∧
      name.length ≤ maxName)
    ⟨fun ⟨hnil, hdot, hup, hslash, hzero, hlength⟩ => ⟨hnil, hdot, hup, hslash, hzero, hlength⟩,
      fun h => ⟨h.ne_nil, h.ne_dot, h.ne_dotDot, h.noSlash, h.noZero, h.length_le⟩⟩

/-- The components of a written path that are not empty. -/
def parts (path : Bytes) : List Bytes := (path.splitOn slash).filter (· ≠ [])

/-- What stands for the slash at the end of a path. -/
def ending (path : Bytes) : List Bytes := if path.getLast? = some slash then [[]] else []

theorem components_eq (path : Bytes) : components path = parts path ++ ending path := rfl

theorem parts_append_slash (p q : Bytes) : parts (p ++ slash :: q) = parts p ++ parts q := by
  rw [parts, List.splitOn_append_cons_self, List.filter_append, ← parts, ← parts]

theorem parts_eq_singleton {name : Bytes} (hnil : name ≠ []) (hslash : slash ∉ name) :
    parts name = [name] := by
  rw [parts, List.splitOn_eq_singleton hslash]
  simp [hnil]

/-- One step down from a path. -/
def descend (path name : Bytes) : Bytes :=
  if path.getLast? = some slash then path ++ name else path ++ slash :: name

theorem below_cons (dir name : Bytes) (place : List Bytes) :
    below dir (name :: place) = below (descend dir name) place := rfl

theorem parts_descend (path : Bytes) {name : Bytes} (h : IsName name) :
    parts (descend path name) = parts path ++ [name] := by
  unfold descend
  split
  · next hslash =>
    obtain ⟨p, rfl⟩ := List.getLast?_eq_some_iff.1 hslash
    have hempty : parts ([] : Bytes) = [] := rfl
    rw [List.append_assoc, List.singleton_append, parts_append_slash, parts_append_slash,
      parts_eq_singleton h.ne_nil h.noSlash, hempty, List.append_nil]
  · rw [parts_append_slash, parts_eq_singleton h.ne_nil h.noSlash]

theorem parts_below (dir : Bytes) {place : List Bytes} (h : ∀ name ∈ place, IsName name) :
    parts (below dir place) = parts dir ++ place := by
  induction place generalizing dir with
  | nil => simp [below]
  | cons name place ih =>
    rw [below_cons, ih _ fun n hn => h n (List.mem_cons_of_mem name hn),
      parts_descend dir (h name List.mem_cons_self), List.append_assoc, List.singleton_append]

theorem getLast?_descend (path : Bytes) {name : Bytes} (h : IsName name) :
    (descend path name).getLast? ≠ some slash := by
  obtain ⟨b, hb⟩ := Option.isSome_iff_exists.1 (List.getLast?_isSome.2 h.ne_nil)
  have hslash : b ≠ slash := fun heq => h.noSlash (heq ▸ List.mem_of_getLast? hb)
  unfold descend
  split <;> simp [List.getLast?_append, List.getLast?_cons, hb, hslash]

theorem ending_below (dir : Bytes) {place : List Bytes} (hne : place ≠ [])
    (h : ∀ name ∈ place, IsName name) : ending (below dir place) = [] := by
  induction place generalizing dir with
  | nil => exact absurd rfl hne
  | cons name place ih =>
    cases place with
    | nil => exact if_neg (getLast?_descend dir (h name List.mem_cons_self))
    | cons next place =>
      exact ih _ (by simp) fun n hn => h n (List.mem_cons_of_mem name hn)

/-- The components of a path below a directory are those of the directory, without
a slash at its end, and the names. -/
theorem components_below (dir : Bytes) {place : List Bytes} (hne : place ≠ [])
    (h : ∀ name ∈ place, IsName name) : components (below dir place) = parts dir ++ place := by
  rw [components_eq, parts_below dir h, ending_below dir hne h, List.append_nil]

theorem below_injective (dir : Bytes) {place place' : List Bytes}
    (h : ∀ name ∈ place, IsName name) (h' : ∀ name ∈ place', IsName name)
    (heq : below dir place = below dir place') : place = place' := by
  have hparts := congrArg parts heq
  rw [parts_below dir h, parts_below dir h'] at hparts
  exact List.append_cancel_left hparts

theorem head?_below {dir : Bytes} (hdir : dir ≠ []) (place : List Bytes) :
    (below dir place).head? = dir.head? ∧ below dir place ≠ [] := by
  induction place generalizing dir with
  | nil => exact ⟨rfl, hdir⟩
  | cons name place ih =>
    obtain ⟨b, rest, rfl⟩ := List.exists_cons_of_ne_nil hdir
    have hdescend : descend (b :: rest) name ≠ [] ∧ (descend (b :: rest) name).head? = some b := by
      unfold descend
      split <;> simp
    obtain ⟨hhead, hne⟩ := ih hdescend.1
    exact ⟨hhead.trans hdescend.2, hne⟩

theorem zero_not_mem_below {dir : Bytes} (hdir : 0 ∉ dir) {place : List Bytes}
    (h : ∀ name ∈ place, IsName name) : 0 ∉ below dir place := by
  induction place generalizing dir with
  | nil => exact hdir
  | cons name place ih =>
    have hname := (h name List.mem_cons_self).noZero
    have hslash : (0 : UInt8) ≠ slash := by decide
    have hdescend : 0 ∉ descend dir name := by
      unfold descend
      split <;> simp [hdir, hname, hslash]
    exact ih hdescend fun n hn => h n (List.mem_cons_of_mem name hn)

/-! ### Following -/

variable {d : Disk}

theorem isDir_of_child? {n : Node} {name : Bytes} {inner : Node} (h : n.child? name = some inner) :
    n.isDir = true := by
  cases n with
  | dir entries mode => rfl
  | file content mode => exact absurd h (by simp [Node.child?])
  | link target => exact absurd h (by simp [Node.child?])

/-- What the first component of a path that is followed to its end can be: one that
leads from one directory to another, a link, or the name of the file at the end. -/
theorem follow_cons_cases {links : Nat} {trail goal : Trail} {name : Bytes} {rest : List Bytes}
    (h : d.follow true links trail (name :: rest) = .ok (.found goal)) :
    (∃ next, ∀ last rest,
      d.follow last links trail (name :: rest) = d.follow last links next rest) ∨
    (∃ left target next, links = left + 1 ∧ ∀ last rest,
      d.follow last links trail (name :: rest) =
        if rest = [] ∧ !last then .ok (.found ((name, .link target) :: trail))
        else d.follow last left next (components target ++ rest)) ∨
    (rest = [] ∧ ∃ content mode, goal = (name, .file content mode) :: trail ∧
      ∀ last, d.follow last links trail [name] = .ok (.found goal)) := by
  have hstep := fun last rest => follow.eq_2 d last links trail name rest
  by_cases hnil : name = []
  · exact .inl ⟨trail, fun last rest => by rw [hstep, if_pos hnil]⟩
  simp only [if_neg hnil] at hstep
  by_cases hsearch : (!(d.nodeAt trail).isSearchable) = true
  · exact absurd h (by simp [hstep, hsearch])
  simp only [if_neg hsearch] at hstep
  by_cases hdot : name = dot
  · exact .inl ⟨trail, fun last rest => by rw [hstep, if_pos hdot]⟩
  simp only [if_neg hdot] at hstep
  by_cases hup : name = dotDot
  · exact .inl ⟨trail.tail, fun last rest => by rw [hstep, if_pos hup]⟩
  simp only [if_neg hup] at hstep
  by_cases hlong : maxName < name.length
  · exact absurd h (by simp [hstep, hlong])
  simp only [if_neg hlong] at hstep
  cases hchild : (d.nodeAt trail).child? name with
  | none =>
    rw [hstep, hchild] at h
    dsimp only at h
    split at h <;> exact absurd h (by simp)
  | some node =>
    simp only [hchild] at hstep
    cases node with
    | dir entries mode => exact .inl ⟨(name, .dir entries mode) :: trail, hstep⟩
    | file content mode =>
      rw [hstep] at h
      dsimp only at h
      split at h
      · next hend =>
        obtain rfl : (name, Node.file content mode) :: trail = goal := by simpa using h
        exact .inr (.inr ⟨hend, content, mode, rfl, fun last => by rw [hstep]; rfl⟩)
      · exact absurd h (by simp)
    | link target =>
      cases links with
      | zero => exact absurd h (by simp [hstep])
      | succ left => exact .inr (.inl ⟨left, target, _, rfl, hstep⟩)

/-- Where following a path ends at a directory, what stands behind is followed from
there, with the links that are left. -/
theorem exists_follow_append {links : Nat} {trail goal : Trail} {path : List Bytes}
    {tail : List Bytes} (htail : tail = [] ∨ tail = [[]])
    (h : d.follow true links trail (path ++ tail) = .ok (.found goal))
    (hgoal : (d.nodeAt goal).isDir = true) :
    ∃ left, ∀ last rest, rest ≠ [] →
      d.follow last links trail (path ++ rest) = d.follow last left goal rest := by
  -- A link puts components in front of the path, but it takes one of the links.
  induction links using Nat.strongRecOn generalizing trail path with
  | _ links ihlinks =>
  induction path generalizing trail with
  | nil =>
    have hgoal : trail = goal := by
      obtain rfl | rfl := htail <;> simpa [follow] using h
    exact ⟨links, fun last rest _ => by rw [hgoal, List.nil_append]⟩
  | cons name path ih =>
    rw [List.cons_append] at h
    obtain ⟨next, hnext⟩ | ⟨left, target, next, rfl, hlink⟩ | ⟨-, content, mode, rfl, -⟩ :=
      follow_cons_cases h
    · obtain ⟨left, hleft⟩ := ih (hnext true _ ▸ h)
      exact ⟨left, fun last rest hrest => by rw [List.cons_append, hnext, hleft last rest hrest]⟩
    · rw [hlink, if_neg (by simp), ← List.append_assoc] at h
      obtain ⟨left', hleft⟩ := ihlinks left (by omega) h
      refine ⟨left', fun last rest hrest => ?_⟩
      rw [List.cons_append, hlink, if_neg (by simp [hrest]), ← List.append_assoc,
        hleft last rest hrest]
    · exact absurd hgoal (by simp [nodeAt, Node.isDir])

/-- Components that lead to a node when a link at their end is followed lead to it as they
are, or to such a link. -/
theorem follow_false_of_true {links : Nat} {trail goal : Trail} {path : List Bytes}
    (h : d.follow true links trail path = .ok (.found goal)) :
    d.follow false links trail path = .ok (.found goal) ∨
      ∃ name target trail', d.follow false links trail path =
        .ok (.found ((name, .link target) :: trail')) := by
  induction links using Nat.strongRecOn generalizing trail path with
  | _ links ihlinks =>
  induction path generalizing trail with
  | nil => exact .inl (by simpa [follow] using h)
  | cons name path ih =>
    obtain ⟨next, hnext⟩ | ⟨left, target, next, rfl, hlink⟩ | ⟨rfl, content, mode, -, hfile⟩ :=
      follow_cons_cases h
    · rw [hnext] at h ⊢
      exact ih h
    · rw [hlink, if_neg (by simp)] at h
      rw [hlink]
      split
      · exact .inr ⟨name, target, trail, rfl⟩
      · exact ihlinks left (by omega) h
    · exact .inl (hfile false)

/-! ### Looking below a directory -/

theorem climb_append (gone : Nat) (path rest : List Bytes) :
    climb gone (path ++ rest) = (climb gone path).bind fun left =>
      if left.1 = 0 then .ok (0, left.2 ++ rest) else climb left.1 rest := by
  fun_induction climb gone path with
  | case1 path => simp [climb, Except.bind]
  | case2 gone => simp [Except.bind]
  | case3 gone name path hstay ih => rw [List.cons_append, climb, if_pos hstay, ih]
  | case4 gone path hstay ih => rw [List.cons_append, climb, if_neg hstay, if_pos rfl, ih]
  | case5 gone name path hstay hup =>
    rw [List.cons_append, climb, if_neg hstay, if_neg hup]
    rfl

theorem climb_le {gone left : Nat} {path rest : List Bytes}
    (h : climb gone path = .ok (left, rest)) : left ≤ gone := by
  fun_induction climb gone path with
  | case1 path => simp_all
  | case2 gone => simp_all
  | case3 gone name path hstay ih => exact ih h
  | case4 gone path hstay ih => exact Nat.le_succ_of_le (ih h)
  | case5 gone name path hstay hup => exact absurd h (by simp)

/-- No name leads anywhere in a directory that has been taken away. -/
theorem climb_of_name {name : Bytes} (h : IsName name) {gone : Nat} (hgone : gone ≠ 0)
    (rest : List Bytes) : climb gone (name :: rest) = .error .noSuchFile := by
  obtain ⟨gone, rfl⟩ := Nat.exists_eq_succ_of_ne_zero hgone
  rw [climb, if_neg (by simp [h.ne_nil, h.ne_dot]), if_neg h.ne_dotDot]

theorem climb_ending {tail : List Bytes} (htail : tail = [] ∨ tail = [[]]) {gone : Nat}
    (hgone : gone ≠ 0) : climb gone tail = .ok (gone, []) := by
  obtain ⟨gone, rfl⟩ := Nat.exists_eq_succ_of_ne_zero hgone
  obtain rfl | rfl := htail
  · rfl
  · rw [climb, if_pos (.inl rfl), climb]

theorem followRelative_of_zero {last : Bool} {path rest : List Bytes} {trail : Trail}
    (hclimb : climb d.gone path = .ok (0, rest)) (hlive : d.liveTrail = some trail) :
    d.followRelative last path = d.follow last maxLinks trail rest := by
  simp [followRelative, hclimb, hlive]

/-- A path that stays in a directory that has been taken away leads to an empty
directory. -/
theorem nodeAt_of_stays {last : Bool} {path rest : List Bytes} {left : Nat} {goal : Trail}
    (hgone : d.gone ≤ d.current.length) (hclimb : climb d.gone path = .ok (left, rest))
    (hleft : left ≠ 0) (h : d.followRelative last path = .ok (.found goal)) :
    d.nodeAt goal = .emptyDir := by
  obtain ⟨left, rfl⟩ := Nat.exists_eq_succ_of_ne_zero hleft
  have hle := climb_le hclimb
  unfold followRelative at h
  rw [hclimb] at h
  cases hlive : d.liveTrail with
  | none => exact absurd h (by simp [hlive])
  | some trail =>
    rw [hlive] at h
    obtain ⟨name, stays, hstays⟩ := List.exists_cons_of_ne_nil
      (l := ((d.current.drop (d.current.length - d.gone)).take (left + 1)).reverse)
      (by simp; omega)
    simp only [hstays, Except.ok.injEq, Place.found.injEq] at h
    rw [← h]
    rfl

/-- Where a path from the current directory ends at a directory, what stands behind is
followed from there, unless this is a directory that has been taken away. -/
theorem followRelative_append {path tail : List Bytes} {goal : Trail}
    (htail : tail = [] ∨ tail = [[]]) (hgone : d.gone ≤ d.current.length)
    (h : d.followRelative true (path ++ tail) = .ok (.found goal))
    (hgoal : (d.nodeAt goal).isDir = true) :
    (∃ left, ∀ last rest, rest ≠ [] →
      d.followRelative last (path ++ rest) = d.follow last left goal rest) ∨
    (d.nodeAt goal = .emptyDir ∧ ∀ last name rest, IsName name →
      d.followRelative last (path ++ name :: rest) = .error .noSuchFile) := by
  have hclimb := climb_append d.gone path
  cases hpath : climb d.gone path with
  | error e =>
    rw [hpath] at hclimb
    exact absurd h (by simp [followRelative, hclimb, Except.bind])
  | ok stop =>
    obtain ⟨left, behind⟩ := stop
    simp only [hpath, Except.bind] at hclimb
    obtain rfl | hleft := Nat.eq_zero_or_pos left
    · simp only [if_true] at hclimb
      cases hlive : d.liveTrail with
      | none => exact absurd h (by simp [followRelative, hclimb, hlive])
      | some trail =>
        rw [followRelative_of_zero (hclimb tail) hlive] at h
        obtain ⟨left, hleft⟩ := exists_follow_append htail h hgoal
        exact .inl ⟨left, fun last rest hrest => by
          rw [followRelative_of_zero (hclimb rest) hlive, hleft last rest hrest]⟩
    · have hleft' : left ≠ 0 := by omega
      simp only [if_neg hleft'] at hclimb
      have hstay := (hclimb tail).trans (climb_ending htail hleft')
      refine .inr ⟨nodeAt_of_stays hgone hstay hleft' h, fun last name rest hname => ?_⟩
      have hlost := (hclimb (name :: rest)).trans (climb_of_name hname hleft' rest)
      simp [followRelative, hlost]

theorem ending_cases (path : Bytes) : ending path = [] ∨ ending path = [[]] := by
  unfold ending
  split <;> simp

theorem look_eq_ok_iff {last : Bool} {path : Bytes} {node : Node} :
    d.look last path = .ok node ↔
      ∃ goal, d.locate last path = .ok (.found goal) ∧ d.nodeAt goal = node := by
  unfold look find
  cases d.locate last path with
  | error e => simp [Except.map]
  | ok place => cases place <;> simp [Except.map]

/-- Where the components of a path lead, from the root or the current directory. -/
def start (d : Disk) (last : Bool) (absolute : Bool) (path : List Bytes) : Except IoReason Place :=
  if absolute then d.follow last maxLinks [] path else d.followRelative last path

theorem locate_eq {last : Bool} {path : Bytes} (hnil : path ≠ []) (hzero : 0 ∉ path)
    (hlength : path.length ≤ maxPath) :
    d.locate last path = d.start last (path.head? = some slash) (components path) := by
  rw [locate, if_neg hnil, if_neg (by simpa using hzero), if_neg (by omega)]
  simp [start]

theorem locate_eq_ok {last : Bool} {path : Bytes} {place : Place}
    (h : d.locate last path = .ok place) : path ≠ [] ∧ 0 ∉ path ∧ path.length ≤ maxPath := by
  unfold locate at h
  split at h
  · exact absurd h (by simp)
  · next hnil =>
    split at h
    · exact absurd h (by simp)
    · next hzero =>
      split at h
      · exact absurd h (by simp)
      · exact ⟨hnil, by simpa using hzero, by omega⟩

theorem locate_below {last : Bool} {dir : Bytes} {place : List Bytes} (hnil : dir ≠ [])
    (hzero : 0 ∉ dir) (hne : place ≠ []) (h : ∀ name ∈ place, IsName name) :
    d.locate last (below dir place) =
      if maxPath < (below dir place).length then .error .nameTooLong
      else d.start last (dir.head? = some slash) (parts dir ++ place) := by
  obtain ⟨hhead, hnil'⟩ := head?_below hnil place
  have hzero' := zero_not_mem_below hzero h
  split
  · next hlong =>
    rw [locate, if_neg hnil', if_neg (by simpa using hzero'), if_pos hlong]
  · next hshort =>
    rw [locate_eq hnil' hzero' (by omega), components_below dir hne h, hhead]

/-- What a path names when a link at its end is followed, it names as it is or by such
a link. -/
theorem locate_false_of_true {path : Bytes} {goal : Trail}
    (h : d.locate true path = .ok (.found goal)) :
    d.locate false path = .ok (.found goal) ∨
      ∃ name target trail, d.locate false path = .ok (.found ((name, .link target) :: trail)) := by
  obtain ⟨hnil, hzero, hlength⟩ := locate_eq_ok h
  rw [locate_eq hnil hzero hlength] at h ⊢
  unfold start at h ⊢
  split at h
  · next habsolute =>
    rw [if_pos habsolute]
    exact follow_false_of_true h
  · next hrelative =>
    rw [if_neg hrelative]
    unfold followRelative at h ⊢
    split at h
    · exact absurd h (by simp)
    · exact absurd h (by simp)
    · exact follow_false_of_true h
    · exact .inl h

/-- Where the paths below a directory lead that is there: they are followed from its
node, or it is gone and they lead nowhere. -/
theorem look_dir_cases {dir : Bytes} {node : Node} (hgone : d.gone ≤ d.current.length)
    (h : d.look true dir = .ok node) (hnode : node.isDir = true) :
    (∃ links goal, d.nodeAt goal = node ∧ ∀ last place, place ≠ [] → (∀ name ∈ place, IsName name) →
      d.locate last (below dir place) =
        if maxPath < (below dir place).length then .error .nameTooLong
        else d.follow last links goal place) ∨
    (node = .emptyDir ∧ ∀ last place, place ≠ [] → (∀ name ∈ place, IsName name) →
      ∃ e, d.locate last (below dir place) = .error e) := by
  obtain ⟨goal, hlocate, rfl⟩ := look_eq_ok_iff.1 h
  obtain ⟨hnil, hzero, hlength⟩ := locate_eq_ok hlocate
  have hstart := locate_eq hnil hzero hlength ▸ hlocate
  have hplace := fun last place hne hnames =>
    @locate_below d last dir place hnil hzero hne hnames
  rw [components_eq] at hstart
  unfold start at hstart hplace
  by_cases habsolute : dir.head? = some slash
  · simp only [habsolute, decide_true, if_true] at hstart hplace
    obtain ⟨left, hleft⟩ := exists_follow_append (ending_cases dir) hstart hnode
    refine .inl ⟨left, goal, rfl, fun last place hne hnames => ?_⟩
    rw [hplace last place hne hnames, hleft last place hne]
  · simp only [habsolute, decide_false, if_false, Bool.false_eq_true] at hstart hplace
    obtain ⟨left, hleft⟩ | ⟨hempty, hlost⟩ :=
      followRelative_append (ending_cases dir) hgone hstart hnode
    · refine .inl ⟨left, goal, rfl, fun last place hne hnames => ?_⟩
      rw [hplace last place hne hnames, hleft last place hne]
    · refine .inr ⟨hempty, fun last place hne hnames => ?_⟩
      rw [hplace last place hne hnames]
      obtain ⟨name, rest, rfl⟩ := List.exists_cons_of_ne_nil hne
      split
      · exact ⟨_, rfl⟩
      · exact ⟨_, hlost last name rest (hnames name List.mem_cons_self)⟩

/-! ### Following names -/

theorem follow_dir (last : Bool) (links : Nat) {trail : Trail} {name : Bytes} {inner : Node}
    (h : IsName name) (hsearch : (d.nodeAt trail).isSearchable = true)
    (hchild : (d.nodeAt trail).child? name = some inner) (hdir : inner.isDir = true)
    (rest : List Bytes) :
    d.follow last links trail (name :: rest) =
      d.follow last links ((name, inner) :: trail) rest := by
  cases inner with
  | dir entries mode =>
    have hlong : ¬ maxName < name.length := Nat.not_lt.2 h.length_le
    rw [follow]
    simp [h.ne_nil, hsearch, h.ne_dot, h.ne_dotDot, hlong, hchild]
  | file content mode => exact absurd hdir (by simp [Node.isDir])
  | link target => exact absurd hdir (by simp [Node.isDir])

theorem follow_last (links : Nat) {trail : Trail} {name : Bytes} {inner : Node} (h : IsName name)
    (hsearch : (d.nodeAt trail).isSearchable = true)
    (hchild : (d.nodeAt trail).child? name = some inner) :
    d.follow false links trail [name] = .ok (.found ((name, inner) :: trail)) := by
  have hlong : ¬ maxName < name.length := Nat.not_lt.2 h.length_le
  cases inner <;> rw [follow] <;>
    simp [h.ne_nil, hsearch, h.ne_dot, h.ne_dotDot, hlong, hchild, follow]

theorem exists_child?_of_follow {links : Nat} {trail goal : Trail} {name : Bytes}
    {rest : List Bytes} (h : IsName name)
    (hfollow : d.follow false links trail (name :: rest) = .ok (.found goal)) :
    (d.nodeAt trail).isSearchable = true ∧ ∃ inner, (d.nodeAt trail).child? name = some inner := by
  have hlong : ¬ maxName < name.length := Nat.not_lt.2 h.length_le
  rw [follow] at hfollow
  simp only [h.ne_nil, h.ne_dot, h.ne_dotDot, hlong, if_false] at hfollow
  split at hfollow
  · exact absurd hfollow (by simp)
  · next hsearch =>
    cases hchild : (d.nodeAt trail).child? name with
    | none =>
      rw [hchild] at hfollow
      dsimp only at hfollow
      split at hfollow <;> exact absurd hfollow (by simp)
    | some inner => exact ⟨by simpa using hsearch, inner, rfl⟩

/-- Names whose beginnings all lead to directories lead to the node that the tree has at
their place. -/
theorem get?_of_follow {links : Nat} {trail goal : Trail} {place : List Bytes}
    (hnames : ∀ name ∈ place, IsName name)
    (hdirs : ∀ front behind, place = front ++ behind → front ≠ [] → behind ≠ [] →
      ∃ stop, d.follow false links trail front = .ok (.found stop) ∧ (d.nodeAt stop).isDir = true)
    (h : d.follow false links trail place = .ok (.found goal)) :
    (d.nodeAt trail).get? place = some (d.nodeAt goal) := by
  induction place generalizing trail with
  | nil =>
    obtain rfl : trail = goal := by simpa [follow] using h
    rfl
  | cons name rest ih =>
    have hname := hnames name List.mem_cons_self
    obtain ⟨hsearch, inner, hchild⟩ := exists_child?_of_follow hname h
    have hlast := follow_last links hname hsearch hchild
    rw [Node.get?, hchild, Option.bind_some]
    cases rest with
    | nil =>
      obtain rfl : (name, inner) :: trail = goal := by simpa [hlast] using h
      rfl
    | cons next rest =>
      obtain ⟨stop, hstop, hdir⟩ := hdirs [name] (next :: rest) rfl (by simp) (by simp)
      obtain rfl : (name, inner) :: trail = stop := by simpa [hlast] using hstop
      have hstep := follow_dir false links hname hsearch hchild hdir
      refine @ih ((name, inner) :: trail) (fun n hn => hnames n (List.mem_cons_of_mem _ hn))
        (fun front behind heq hfront hbehind => ?_) (hstep _ ▸ h)
      obtain ⟨stop', hstop', hdir'⟩ :=
        hdirs (name :: front) behind (by rw [heq]; rfl) (by simp) hbehind
      exact ⟨stop', hstep front ▸ hstop', hdir'⟩

end CleanDiff.Disk
