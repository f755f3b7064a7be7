import CleanDiff.Proofs.NodeTree
import CleanDiff.Proofs.RelativePath
import CleanDiff.Proofs.Utf8

/-!
# What a walk finds

A walk answers with the files that may be touched, but for the paths it writes them with:
**it is exact if and only if no file that it finds has a backslash in its path**, and none a
path that is too long (`filesBelow_exact_iff`). A path with a backslash is answered as
another one, which may lead where the walk does not go.

What may be touched is said of paths alone, as they are followed on the disk (`MayTouch`).
What the walk finds is said of the tree of the directory (`Walked`), and the two agree
where the system takes the path (`mayTouch_iff`). Only paths that are text come into the
answer, and the names in such a path are texts as well (`exists_text_of_below`), so the
walk, which compares names as texts, leaves out the directories that it is asked to.
-/

namespace CleanDiff.Disk

/-! ### What a walk may touch -/

/-- The path names a directory, itself or by a link, and everything below can be read. -/
structure ReadableTree (d : Disk) (dir : Bytes) (node : Node) : Prop where
  /-- What has been taken away of the current directory's place is a part of it. -/
  gone_le : d.gone ≤ d.current.length
  look_eq : d.look true dir = .ok node
  isDir : node.isDir = true
  legal : node.Legal
  readable : node.Readable

/-- May a walk pass through a directory with this name? -/
def Admits (excluded : List Text) (name : Bytes) : Prop :=
  name ≠ Utf8.encode repositoryDir ∧ ∀ text ∈ excluded, name ≠ Utf8.encode text

/-- The path is that of the directory, followed by names. -/
def IsBelow (dir p : Path) : Prop :=
  ∃ place, (∀ name ∈ place, IsName name) ∧ p.toBytes = below dir.toBytes place

/-- The path, taken as it is, names a regular file that is reached from the directory
through directories that may be passed. -/
def MayTouch (d : Disk) (dir : Path) (excluded : List Text) (p : Path) : Prop :=
  ∃ front name, (∀ n ∈ front ++ [name], IsName n) ∧
    p.toBytes = below dir.toBytes (front ++ [name]) ∧
    d.holds false p.toBytes Node.isFile = true ∧
    (∀ outer behind, front = outer ++ behind → outer ≠ [] →
      d.holds false (below dir.toBytes outer) Node.isDir = true) ∧
    ∀ n ∈ front, Admits excluded n

/-- What is asked of the files below a directory: in the order of their bytes, none
twice, with paths below the directory, and of these the ones that may be touched. -/
structure Exact (d : Disk) (dir : Path) (excluded : List Text) (files : List Path) : Prop where
  ascending : files.Pairwise fun p q => p.toBytes < q.toBytes
  isBelow : ∀ p ∈ files, IsBelow dir p
  mem_iff : ∀ p, IsBelow dir p → (p ∈ files ↔ d.MayTouch dir excluded p)

/-- The tree has a file at the place that the path names, in directories that the walk
enters. -/
def Walked (node : Node) (dir : Path) (excluded : List Text) (p : Path) : Prop :=
  ∃ front name content mode, p.toBytes = below dir.toBytes (front ++ [name]) ∧
    node.get? (front ++ [name]) = some (.file content mode) ∧
    (∀ n ∈ front, Admits excluded n) ∧
    (front = [] ∨ (below dir.toBytes front).length ≤ maxPath)

theorem length_le_below (dir : Bytes) (front behind : List Bytes) :
    (below dir front).length ≤ (below dir (front ++ behind)).length := by
  have hlength : ∀ (path : Bytes) (place : List Bytes),
      path.length ≤ (below path place).length := by
    intro path place
    induction place generalizing path with
    | nil => exact Nat.le_refl _
    | cons name place ih =>
      have hstep : path.length ≤ (descend path name).length := by
        unfold descend
        split <;> simp
      exact Nat.le_trans hstep (ih _)
  have happend : below dir (front ++ behind) = below (below dir front) behind := List.foldl_append
  rw [happend]
  exact hlength _ _

variable {d : Disk}

/-- A readable tree is followed to any of its nodes. -/
theorem exists_follow_of_get? (links : Nat) {trail : Trail} {place : List Bytes} {inner : Node}
    (hlegal : (d.nodeAt trail).Legal) (hreadable : (d.nodeAt trail).Readable) (hne : place ≠ [])
    (h : (d.nodeAt trail).get? place = some inner) :
    ∃ goal, d.follow false links trail place = .ok (.found goal) ∧ d.nodeAt goal = inner := by
  induction place generalizing trail with
  | nil => exact absurd rfl hne
  | cons name rest ih =>
    obtain ⟨next, hchild, hrest⟩ := Node.get?_cons_eq_some_iff.1 h
    have hname := hlegal.isName_of_child? hchild
    have hsearch := (hreadable.of_isDir (isDir_of_child? hchild)).2
    cases rest with
    | nil =>
      obtain rfl : next = inner := by simpa [Node.get?] using hrest
      exact ⟨_, follow_last links hname hsearch hchild, rfl⟩
    | cons name' rest =>
      have hdir : next.isDir = true := by
        obtain ⟨_, hinner, -⟩ := Node.get?_cons_eq_some_iff.1 hrest
        exact isDir_of_child? hinner
      rw [follow_dir false links hname hsearch hchild hdir]
      exact @ih ((name, next) :: trail) (hlegal.child hchild) (hreadable.child hchild)
        (by simp) hrest

theorem holds_iff {last : Bool} {path : Bytes} {p : Node → Bool} :
    d.holds last path p = true ↔ ∃ node, d.look last path = .ok node ∧ p node = true := by
  unfold holds
  cases d.look last path <;> simp

theorem length_le_of_holds {last : Bool} {path : Bytes} {p : Node → Bool}
    (h : d.holds last path p = true) : path.length ≤ maxPath := by
  obtain ⟨node, hlook, -⟩ := holds_iff.1 h
  obtain ⟨goal, hlocate, -⟩ := look_eq_ok_iff.1 hlook
  exact (locate_eq_ok hlocate).2.2

/-- What the tree of a directory has at a place is what the path of the place names. -/
theorem look_below {dir : Bytes} {node inner : Node} {place : List Bytes}
    (htree : d.ReadableTree dir node) (hne : place ≠ [])
    (hlength : (below dir place).length ≤ maxPath) (h : node.get? place = some inner) :
    d.look false (below dir place) = .ok inner := by
  have hnames := htree.legal.isName_of_get? h
  obtain ⟨links, trail, rfl, hlocate⟩ | ⟨rfl, _⟩ :=
    look_dir_cases htree.gone_le htree.look_eq htree.isDir
  · obtain ⟨goal, hgoal, rfl⟩ :=
      exists_follow_of_get? links htree.legal htree.readable hne h
    refine look_eq_ok_iff.2 ⟨goal, ?_, rfl⟩
    rw [hlocate false place hne hnames, if_neg (by omega), hgoal]
  · obtain ⟨name, rest, rfl⟩ := List.exists_cons_of_ne_nil hne
    exact absurd h (by simp [Node.get?, Node.emptyDir, Node.child?])

/-- What a path below a directory names is in the tree of the directory, unless a link
stands on the way. -/
theorem get?_of_look {dir : Bytes} {node inner : Node} {place : List Bytes}
    (htree : d.ReadableTree dir node) (hne : place ≠ []) (hnames : ∀ name ∈ place, IsName name)
    (hdirs : ∀ front behind, place = front ++ behind → front ≠ [] → behind ≠ [] →
      d.holds false (below dir front) Node.isDir = true)
    (h : d.look false (below dir place) = .ok inner) : node.get? place = some inner := by
  obtain ⟨goal, hgoal, rfl⟩ := look_eq_ok_iff.1 h
  obtain ⟨links, trail, rfl, hlocate⟩ | ⟨rfl, hlost⟩ :=
    look_dir_cases htree.gone_le htree.look_eq htree.isDir
  · have hfollow : ∀ front stop, front ≠ [] → (∀ name ∈ front, IsName name) →
        d.locate false (below dir front) = .ok (.found stop) →
        d.follow false links trail front = .ok (.found stop) := by
      intro front stop hfront hnames hstop
      rw [hlocate false front hfront hnames] at hstop
      split at hstop
      · exact absurd hstop (by simp)
      · exact hstop
    refine get?_of_follow hnames (fun front behind heq hfront hbehind => ?_)
      (hfollow place goal hne hnames hgoal)
    obtain ⟨outer, houter, hisDir⟩ := holds_iff.1 (hdirs front behind heq hfront hbehind)
    obtain ⟨stop, hstop, rfl⟩ := look_eq_ok_iff.1 houter
    have hfrontNames : ∀ name ∈ front, IsName name := fun name hname =>
      hnames name (heq ▸ List.mem_append_left behind hname)
    exact ⟨stop, hfollow front stop hfront hfrontNames hstop, hisDir⟩
  · obtain ⟨e, he⟩ := hlost false place hne hnames
    exact absurd hgoal (by simp [he])

/-- What may be touched is what the tree of the directory has, where the system can take
its path. -/
theorem mayTouch_iff {dir p : Path} {excluded : List Text} {node : Node}
    (htree : d.ReadableTree dir.toBytes node) :
    d.MayTouch dir excluded p ↔
      Walked node dir excluded p ∧ p.toBytes.length ≤ maxPath := by
  constructor
  · intro ⟨front, name, hnames, hp, hfile, hdirs, hadmits⟩
    have hlength := length_le_of_holds hfile
    obtain ⟨inner, hlook, hisFile⟩ := holds_iff.1 hfile
    rw [hp] at hlook hlength
    have hget := get?_of_look htree (by simp) hnames
      (fun outer behind heq houter hbehind => by
        obtain rfl | ⟨more, last, rfl⟩ := List.eq_nil_or_concat behind
        · exact absurd rfl hbehind
        · rw [List.concat_eq_append, ← List.append_assoc] at heq
          exact hdirs outer more (List.append_inj_left' heq rfl) houter) hlook
    obtain ⟨content, mode, rfl⟩ := Node.exists_file_of_isFile hisFile
    have hshort := length_le_below dir.toBytes front [name]
    exact ⟨⟨front, name, content, mode, hp, hget, hadmits, .inr (by omega)⟩, hp ▸ hlength⟩
  · intro ⟨⟨front, name, content, mode, hp, hget, hadmits, _⟩, hlength⟩
    rw [hp] at hlength
    have hlook : ∀ place inner, place ≠ [] → (below dir.toBytes place).length ≤ maxPath →
        node.get? place = some inner → d.look false (below dir.toBytes place) = .ok inner :=
      fun place inner => look_below htree
    refine ⟨front, name, htree.legal.isName_of_get? hget, hp, ?_, ?_, hadmits⟩
    · exact holds_iff.2 ⟨_, hp ▸ hlook _ _ (by simp) hlength hget, rfl⟩
    · intro outer behind heq houter
      rw [heq, List.append_assoc] at hget hlength
      obtain ⟨inner, hinner, hisDir⟩ := Node.exists_dir_of_get? (by simp) hget
      have hshort := length_le_below dir.toBytes outer (behind ++ [name])
      exact holds_iff.2 ⟨inner, hlook outer inner houter (by omega) hinner, hisDir⟩

/-! ### What the walk finds -/

/-- Where a path is text, its names are texts. -/
theorem exists_text_of_below {dir : Bytes} {t : Text} {place : List Bytes}
    (hnames : ∀ name ∈ place, IsName name) (h : Utf8.encode t = below dir place) :
    ∀ name ∈ place, ∃ s, name = Utf8.encode s := by
  intro name hname
  have hpart : name ∈ parts (Utf8.encode t) := by
    rw [h, parts_below dir hnames]
    exact List.mem_append_right _ hname
  have hpiece : name ∈ (t.splitOn '/').map Utf8.encode := by
    rw [← Utf8.splitOn_encode]
    exact (List.mem_filter.1 hpart).1
  obtain ⟨s, -, hs⟩ := List.mem_map.1 hpiece
  exact ⟨s, hs.symm⟩

theorem mayEnter_encode (excluded : List Text) (s : Text) :
    mayEnter excluded (Utf8.encode s) = true ↔ Admits excluded (Utf8.encode s) := by
  have hinj : ∀ t, Utf8.encode s = Utf8.encode t ↔ s = t := fun t =>
    ⟨fun h => Utf8.encode_injective h, congrArg _⟩
  simp [mayEnter, Admits, Utf8.decodeLossy_encode, hinj, List.forall_mem_ne]

theorem mayList_of_readable {node outer : Node} {place : List Bytes} (h : node.Readable)
    (hplace : node.get? place = some outer) (hdir : outer.isDir = true) :
    mayList node place = true := by
  induction place generalizing node with
  | nil =>
    obtain rfl : node = outer := by simpa [Node.get?] using hplace
    exact (h.of_isDir hdir).1
  | cons name rest ih =>
    obtain ⟨next, hchild, hrest⟩ := Node.get?_cons_eq_some_iff.1 hplace
    obtain ⟨hread, hsearch⟩ := h.of_isDir (isDir_of_child? hchild)
    simp [mayList, hread, hsearch, hchild, ih (h.child hchild) hrest]

/-- The path of a file that the walk finds, as it is. -/
def nativeFile? (excluded : List Text) (dir : Bytes) (node : Node)
    (entry : List Bytes × Node) : Option Path :=
  if entry.2.isFile ∧ reaches excluded dir node entry.1 then
    (Utf8.decode? (below dir entry.1.reverse)).map Path.mk
  else none

/-- The paths of the files that the walk finds, as they are. -/
def nativeFiles (excluded : List Text) (dir : Bytes) (node : Node) : List Path :=
  (node.descendants []).filterMap (nativeFile? excluded dir node)

theorem walk_perm (excluded : List Text) (dir : Bytes) (node : Node) :
    (walk excluded dir node).Perm
      ((nativeFiles excluded dir node).map fun p => .ofText p.text) := by
  have hfile : walkedFile? excluded dir node =
      fun entry => (nativeFile? excluded dir node entry).map fun p => .ofText p.text := by
    funext entry
    unfold walkedFile? nativeFile?
    split
    · rw [Option.map_map]
      rfl
    · rfl
  rw [walk, hfile, nativeFiles, List.map_filterMap]
  exact List.mergeSort_perm _ _

theorem toBytes_le_iff {p q : Path} : p.toBytes ≤ q.toBytes ↔ (!q.before p) = true := by
  rw [← List.not_lt, Path.toBytes, Path.toBytes, Utf8.encode_lt_encode_iff]
  simp [Path.before]

theorem ascending_walk (excluded : List Text) (dir : Bytes) (node : Node) :
    (walk excluded dir node).Pairwise fun p q => p.toBytes ≤ q.toBytes := by
  simp only [toBytes_le_iff]
  refine List.pairwise_mergeSort (fun p q r hpq hqr => ?_) (fun p q => ?_) _
  · exact toBytes_le_iff.1 (List.le_trans (toBytes_le_iff.2 hpq) (toBytes_le_iff.2 hqr))
  · rw [Bool.or_eq_true, ← toBytes_le_iff, ← toBytes_le_iff]
    exact List.le_total _ _

theorem map_decode?_eq_some_iff {bytes : Bytes} {p : Path} :
    (Utf8.decode? bytes).map Path.mk = some p ↔ p.toBytes = bytes := by
  rw [Option.map_eq_some_iff]
  constructor
  · intro ⟨t, ht, hp⟩
    rw [← hp]
    exact Utf8.decode?_eq_some_iff.1 ht
  · intro h
    exact ⟨p.text, Utf8.decode?_eq_some_iff.2 h, rfl⟩

theorem nativeFile?_eq_some_iff {excluded : List Text} {dir p : Path} {node inner : Node}
    {front : List Bytes} {name : Bytes} (hlegal : node.Legal) (hreadable : node.Readable)
    (hget : node.get? (front ++ [name]) = some inner) :
    nativeFile? excluded dir.toBytes node ((front ++ [name]).reverse, inner) = some p ↔
      inner.isFile = true ∧ p.toBytes = below dir.toBytes (front ++ [name]) ∧
      (∀ n ∈ front, Admits excluded n) ∧
      (front = [] ∨ (below dir.toBytes front).length ≤ maxPath) := by
  obtain ⟨outer, houter, hdir⟩ := Node.exists_dir_of_get? (by simp) hget
  have hlist := mayList_of_readable hreadable houter hdir
  have hnames := hlegal.isName_of_get? hget
  have hreaches : reaches excluded dir.toBytes node (front ++ [name]).reverse = true ↔
      (∀ n ∈ front, mayEnter excluded n = true) ∧
      (front = [] ∨ (below dir.toBytes front).length ≤ maxPath) := by
    simp [reaches, hlist]
  -- Only where the path is text are the names that the walk compares those of the directories.
  have hadmits : p.toBytes = below dir.toBytes (front ++ [name]) →
      ((∀ n ∈ front, mayEnter excluded n = true) ↔ ∀ n ∈ front, Admits excluded n) := by
    intro hp
    have htext := exists_text_of_below hnames hp
    refine forall₂_congr fun n hn => ?_
    obtain ⟨s, rfl⟩ := htext n (List.mem_append_left _ hn)
    exact mayEnter_encode excluded s
  unfold nativeFile?
  simp only [List.reverse_reverse, hreaches]
  split
  · next hcond =>
    rw [map_decode?_eq_some_iff]
    constructor
    · intro hp
      exact ⟨hcond.1, hp, (hadmits hp).1 hcond.2.1, hcond.2.2⟩
    · exact fun h => h.2.1
  · next hcond =>
    simp only [reduceCtorEq, false_iff]
    intro ⟨hfile, hp, hfront, hlength⟩
    exact hcond ⟨hfile, (hadmits hp).2 hfront, hlength⟩

theorem mem_nativeFiles_iff {excluded : List Text} {dir p : Path} {node : Node}
    (hlegal : node.Legal) (hreadable : node.Readable) :
    p ∈ nativeFiles excluded dir.toBytes node ↔ Walked node dir excluded p := by
  rw [nativeFiles, List.mem_filterMap]
  constructor
  · intro ⟨⟨way, inner⟩, hmem, hfile⟩
    obtain ⟨place, hne, rfl, hget⟩ := (Node.mem_descendants_iff hlegal).1 hmem
    obtain rfl | ⟨front, name, rfl⟩ := List.eq_nil_or_concat place
    · exact absurd rfl hne
    · rw [List.concat_eq_append] at hget hfile
      rw [List.append_nil, nativeFile?_eq_some_iff hlegal hreadable hget] at hfile
      obtain ⟨hisFile, hp, hadmits, hlength⟩ := hfile
      obtain ⟨content, mode, rfl⟩ := Node.exists_file_of_isFile hisFile
      exact ⟨front, name, content, mode, hp, hget, hadmits, hlength⟩
  · intro ⟨front, name, content, mode, hp, hget, hadmits, hlength⟩
    refine ⟨((front ++ [name]).reverse, .file content mode), ?_, ?_⟩
    · exact (Node.mem_descendants_iff hlegal).2 ⟨front ++ [name], by simp, by simp, hget⟩
    · exact (nativeFile?_eq_some_iff hlegal hreadable hget).2 ⟨rfl, hp, hadmits, hlength⟩

theorem toBytes_of_nativeFile? {excluded : List Text} {dir : Bytes} {p : Path} {node : Node}
    {entry : List Bytes × Node} (h : nativeFile? excluded dir node entry = some p) :
    p.toBytes = below dir entry.1.reverse := by
  unfold nativeFile? at h
  split at h
  · exact map_decode?_eq_some_iff.1 h
  · exact absurd h (by simp)

theorem nodup_nativeFiles {excluded : List Text} {dir : Bytes} {node : Node} (h : node.Legal) :
    (nativeFiles excluded dir node).Nodup := by
  have hnames : ∀ entry ∈ node.descendants [], ∀ name ∈ entry.1.reverse, IsName name := by
    intro ⟨way, inner⟩ hmem
    obtain ⟨place, -, rfl, hget⟩ := (Node.mem_descendants_iff h).1 hmem
    simpa using h.isName_of_get? hget
  rw [nativeFiles, List.Nodup, List.pairwise_filterMap]
  refine (List.pairwise_map.1 (Node.nodup_descendants h [])).imp_of_mem ?_
  intro entry other hentry hother hne p hp q hq heq
  have hbytes := (toBytes_of_nativeFile? hp).symm.trans (heq ▸ toBytes_of_nativeFile? hq)
  have hways := below_injective dir (hnames entry hentry) (hnames other hother) hbytes
  exact hne (List.reverse_injective hways)

/-! ### The walk is exact but for backslashes -/

theorem length_toBytes_ofText (t : Text) :
    (Path.ofText t).toBytes.length = (Utf8.encode t).length := by
  rw [Path.toBytes, Path.ofText, Utf8.encode, Utf8.encode, List.length_flatMap, List.length_flatMap,
    Path.forwardSlashes, List.map_map]
  refine congrArg List.sum (List.map_congr_left fun c _ => ?_)
  by_cases hc : c = '\\'
  · rw [hc]
    decide
  · simp [hc]

/-- A directory that is there and may be read is walked, whether its path names it or a
link to it. -/
theorem filesBelow_eq {dir : Path} {excluded : List Text} {node : Node}
    (htree : d.ReadableTree dir.toBytes node) :
    d.filesBelow dir excluded = .ok (walk excluded dir.toBytes node) := by
  have hlisting : listing excluded dir node = .ok (walk excluded dir.toBytes node) := by
    rw [listing, if_neg (by simp [(htree.readable.of_isDir htree.isDir).1])]
  obtain ⟨goal, hgoal, rfl⟩ := look_eq_ok_iff.1 htree.look_eq
  unfold filesBelow
  obtain hsame | ⟨name, target, trail, hlink⟩ := locate_false_of_true hgoal
  · rw [look_eq_ok_iff.2 ⟨goal, hsame, rfl⟩]
    cases hgoalNode : d.nodeAt goal with
    | dir entries mode =>
      rw [hgoalNode] at hlisting
      exact hlisting
    | file content mode => exact absurd htree.isDir (by simp [hgoalNode, Node.isDir])
    | link target => exact absurd htree.isDir (by simp [hgoalNode, Node.isDir])
  · rw [look_eq_ok_iff.2 ⟨_, hlink, rfl⟩, htree.look_eq]
    exact hlisting

/-- The walk is exact if and only if it changes no path and finds none that is too long. -/
theorem exact_iff_of_perm {dir : Path} {excluded : List Text} {node : Node} {files : List Path}
    (htree : d.ReadableTree dir.toBytes node)
    (hperm : files.Perm ((nativeFiles excluded dir.toBytes node).map fun p => .ofText p.text))
    (hascending : files.Pairwise fun p q => p.toBytes ≤ q.toBytes) :
    d.Exact dir excluded files ↔
      ∀ p, Walked node dir excluded p → '\\' ∉ p.text ∧ p.toBytes.length ≤ maxPath := by
  have hmem : ∀ p, p ∈ nativeFiles excluded dir.toBytes node ↔ Walked node dir excluded p :=
    fun p => mem_nativeFiles_iff htree.legal htree.readable
  have htouch : ∀ p, d.MayTouch dir excluded p ↔
      Walked node dir excluded p ∧ p.toBytes.length ≤ maxPath :=
    fun p => mayTouch_iff htree
  have hbelow : ∀ p, Walked node dir excluded p → IsBelow dir p := by
    intro p ⟨front, name, _, _, hp, hget, _⟩
    exact ⟨front ++ [name], htree.legal.isName_of_get? hget, hp⟩
  constructor
  · intro hexact p hp
    -- What the walk answers for the file may be touched, so it is not too long.
    have hanswer : Path.ofText p.text ∈ files :=
      hperm.mem_iff.2 (List.mem_map.2 ⟨p, (hmem p).2 hp, rfl⟩)
    have hlength := ((htouch _).1 ((hexact.mem_iff _ (hexact.isBelow _ hanswer)).1 hanswer)).2
    rw [length_toBytes_ofText] at hlength
    -- Then the file itself may be touched, and no answer has a backslash.
    have hfile := (hexact.mem_iff p (hbelow p hp)).2 ((htouch p).2 ⟨hp, hlength⟩)
    obtain ⟨q, -, hq⟩ := List.mem_map.1 (hperm.mem_iff.1 hfile)
    refine ⟨?_, hlength⟩
    rw [← hq]
    exact Path.not_mem_forwardSlashes q.text
  · intro hclean
    have hsame : (nativeFiles excluded dir.toBytes node).map (fun p => Path.ofText p.text) =
        nativeFiles excluded dir.toBytes node := by
      refine (List.map_congr_left fun p hp => ?_).trans (List.map_id' _)
      exact congrArg Path.mk (Path.forwardSlashes_of_not_mem (hclean p ((hmem p).1 hp)).1)
    rw [hsame] at hperm
    have hfiles : ∀ p, p ∈ files ↔ Walked node dir excluded p := fun p =>
      hperm.mem_iff.trans (hmem p)
    refine ⟨?_, fun p hp => hbelow p ((hfiles p).1 hp), fun p _ => ?_⟩
    · have hnodup := hperm.nodup_iff.2 (nodup_nativeFiles htree.legal)
      refine (hascending.and hnodup).imp fun {p q} h => ?_
      have hne : p.toBytes ≠ q.toBytes := fun heq =>
        h.2 (congrArg Path.mk (Utf8.encode_injective heq))
      exact (List.le_iff_lt_or_eq.1 h.1).resolve_right hne
    · rw [hfiles, htouch]
      exact ⟨fun hp => ⟨hp, (hclean p hp).2⟩, fun hp => hp.1⟩

/-- **A walk is exact if and only if it finds no file with a backslash in its path**, and
none whose path is longer than the system takes. Whatever it finds, it answers in the
order of the bytes, and for every file that the tree has in directories it may enter with
one path: that of the file, with slashes for backslashes. -/
theorem filesBelow_exact_iff {d : Disk} {dir : Path} {node : Node}
    (htree : d.ReadableTree dir.toBytes node) (excluded : List Text) :
    ∃ files, d.filesBelow dir excluded = .ok files ∧
      (files.Pairwise fun p q => p.toBytes ≤ q.toBytes) ∧
      (∃ native : List Path, native.Nodup ∧ (∀ p, p ∈ native ↔ Walked node dir excluded p) ∧
        files.Perm (native.map fun p => .ofText p.text)) ∧
      (d.Exact dir excluded files ↔
        ∀ p, Walked node dir excluded p → '\\' ∉ p.text ∧ p.toBytes.length ≤ maxPath) := by
  have hperm := walk_perm excluded dir.toBytes node
  have hascending := ascending_walk excluded dir.toBytes node
  refine ⟨walk excluded dir.toBytes node, filesBelow_eq htree, hascending, ?_, ?_⟩
  · exact ⟨nativeFiles excluded dir.toBytes node, nodup_nativeFiles htree.legal,
      fun p => mem_nativeFiles_iff htree.legal htree.readable, hperm⟩
  · exact exact_iff_of_perm htree hperm hascending

/-- A repository with a file beside it whose name reads as the path of a file inside. -/
def strayTree : Node := .dir
  [(Utf8.encode ".git".toList, .dir [(Utf8.encode "config".toList, .file [] 0o644)] 0o755),
    (Utf8.encode ".git\\config".toList, .file [] 0o644),
    (Utf8.encode "out".toList, .dir [(Utf8.encode "x".toList, .file [] 0o644)] 0o755)] 0o755

def strayDisk : Disk := { root := strayTree }

theorem look_strayDisk : strayDisk.look true (Path.ofString ".").toBytes = .ok strayTree := by
  have hbytes : (Path.ofString ".").toBytes = dot := by decide
  have hcomponents : components dot = [dot] := by decide
  rw [look_eq_ok_iff, hbytes]
  refine ⟨[], ?_, rfl⟩
  rw [locate_eq (by decide) (by decide) (by decide), hcomponents]
  have hroot : (strayDisk.nodeAt []).isSearchable = true := rfl
  simpa [start, followRelative, climb, liveTrail, trailOf, follow, strayDisk, dot, slash, dotByte]
    using hroot

theorem legal_strayTree : strayTree.Legal := by
  have hfile : (Node.file [] 0o644).Legal := Node.legal_of_not_isDir rfl
  refine Node.legal_dir ⟨by decide, by decide⟩ ?_
  simp only [List.forall_mem_cons]
  refine ⟨Node.legal_dir ⟨by decide, by decide⟩ ?_, hfile,
    Node.legal_dir ⟨by decide, by decide⟩ ?_, by simp⟩
  · simpa using hfile
  · simpa using hfile

theorem readable_strayTree : strayTree.Readable := by
  have hfile : (Node.file [] 0o644).Readable := Node.readable_of_not_isDir rfl
  refine Node.readable_dir ⟨rfl, rfl⟩ ?_
  simp only [List.forall_mem_cons]
  refine ⟨Node.readable_dir ⟨rfl, rfl⟩ ?_, hfile, Node.readable_dir ⟨rfl, rfl⟩ ?_, by simp⟩
  · simpa using hfile
  · simpa using hfile

theorem readableTree_strayTree :
    strayDisk.ReadableTree (Path.ofString ".").toBytes strayTree where
  gone_le := Nat.le_refl _
  look_eq := look_strayDisk
  isDir := rfl
  legal := legal_strayTree
  readable := readable_strayTree

theorem filesBelow_exact_iff_of_strayTree :
    strayDisk.ReadableTree (Path.ofString ".").toBytes strayTree ∧
      ∃ files, strayDisk.filesBelow (.ofString ".") ["out".toList] = .ok files ∧
        (files.Pairwise fun p q => p.toBytes ≤ q.toBytes) ∧
        (∃ native : List Path, native.Nodup ∧
          (∀ p, p ∈ native ↔ Walked strayTree (.ofString ".") ["out".toList] p) ∧
          files.Perm (native.map fun p => .ofText p.text)) ∧
        (strayDisk.Exact (.ofString ".") ["out".toList] files ↔
          ∀ p, Walked strayTree (.ofString ".") ["out".toList] p →
            '\\' ∉ p.text ∧ p.toBytes.length ≤ maxPath) :=
  ⟨readableTree_strayTree, filesBelow_exact_iff readableTree_strayTree ["out".toList]⟩

/-- A walk of a readable tree can answer with the path of a file that it may not touch. -/
theorem not_filesBelow_exact :
    ¬ ∀ (d : Disk) (dir : Path) (excluded : List Text) (node : Node),
      d.ReadableTree dir.toBytes node →
      ∃ files, d.filesBelow dir excluded = .ok files ∧ d.Exact dir excluded files := by
  intro h
  obtain ⟨files, hfiles, hexact⟩ :=
    h strayDisk (.ofString ".") ["out".toList] strayTree readableTree_strayTree
  obtain rfl : walk ["out".toList] (Path.ofString ".").toBytes strayTree = files := by
    rw [filesBelow_eq readableTree_strayTree] at hfiles
    exact Except.ok.inj hfiles
  have hstray : Walked strayTree (.ofString ".") ["out".toList] ⟨"./.git\\config".toList⟩ :=
    ⟨[], Utf8.encode ".git\\config".toList, [], 0o644, by decide, rfl, by simp, .inl rfl⟩
  have hclean := (exact_iff_of_perm readableTree_strayTree (walk_perm _ _ _)
    (ascending_walk _ _ _)).1 hexact _ hstray
  exact absurd hclean.1 (by decide)

end CleanDiff.Disk
