import CleanDiff.Proofs.Following
import Mathlib.Data.List.Nodup

/-!
# What lies below a node

A tree of nodes can be looked at in two ways: place by place (`get?`) and all at
once (`descendants`). Where no directory has two entries of one name, both show
the same: the descendants are the nodes at the places below, each once
(`mem_descendants_iff`, `nodup_descendants`).
-/

namespace CleanDiff.Node

/-- A node is a file, a link, or a directory of entries that are nodes again. -/
@[elab_as_elim]
theorem entries_induction {p : Node → Prop} (n : Node)
    (file : ∀ content mode, p (.file content mode)) (link : ∀ target, p (.link target))
    (dir : ∀ entries mode, (∀ entry ∈ entries, p entry.2) → p (.dir entries mode)) : p n :=
  match n with
  | .file content mode => file content mode
  | .link target => link target
  | .dir entries mode => dir entries mode fun entry _ => entries_induction entry.2 file link dir
termination_by sizeOf n
decreasing_by
  have hentry := List.sizeOf_lt_of_mem ‹entry ∈ entries›
  cases entry
  simp at hentry ⊢
  omega

theorem get?_cons_eq_some_iff {n inner : Node} {name : Bytes} {rest : List Bytes} :
    n.get? (name :: rest) = some inner ↔
      ∃ next, n.child? name = some next ∧ next.get? rest = some inner := Option.bind_eq_some_iff

theorem exists_file_of_isFile {n : Node} (h : n.isFile = true) :
    ∃ content mode, n = .file content mode := by
  cases n with
  | file content mode => exact ⟨content, mode, rfl⟩
  | dir entries mode => exact absurd h (by simp [isFile])
  | link target => exact absurd h (by simp [isFile])

theorem get?_append (n : Node) (front behind : List Bytes) :
    n.get? (front ++ behind) = (n.get? front).bind (·.get? behind) := by
  induction front generalizing n with
  | nil => rfl
  | cons name front ih =>
    rw [List.cons_append, get?, get?, Option.bind_assoc]
    exact congrArg _ (funext ih)

/-- On the way to a node there are only directories. -/
theorem exists_dir_of_get? {n inner : Node} {front behind : List Bytes} (hne : behind ≠ [])
    (h : n.get? (front ++ behind) = some inner) :
    ∃ outer, n.get? front = some outer ∧ outer.isDir = true := by
  rw [get?_append] at h
  obtain ⟨outer, houter, hbehind⟩ := Option.bind_eq_some_iff.1 h
  obtain ⟨name, rest, rfl⟩ := List.exists_cons_of_ne_nil hne
  obtain ⟨next, hnext, -⟩ := get?_cons_eq_some_iff.1 hbehind
  exact ⟨outer, houter, Disk.isDir_of_child? hnext⟩

/-- Entries with names that a file system allows, no two of them the same. -/
structure LegalEntries (entries : List (Bytes × Node)) : Prop where
  nodup : (entries.map Prod.fst).Nodup
  isName : ∀ entry ∈ entries, Disk.IsName entry.1

/-- Every directory of a tree has legal entries. -/
def Legal (n : Node) : Prop :=
  ∀ place entries mode, n.get? place = some (.dir entries mode) → LegalEntries entries

/-- Every directory of a tree can be listed and passed through. -/
def Readable (n : Node) : Prop :=
  ∀ place inner, n.get? place = some inner → inner.isDir = true →
    inner.isReadable = true ∧ inner.isSearchable = true

theorem Legal.child {n inner : Node} {name : Bytes} (h : n.Legal)
    (hchild : n.child? name = some inner) : inner.Legal := fun place entries mode hplace =>
  h (name :: place) entries mode (get?_cons_eq_some_iff.2 ⟨inner, hchild, hplace⟩)

theorem Readable.child {n inner : Node} {name : Bytes} (h : n.Readable)
    (hchild : n.child? name = some inner) : inner.Readable :=
  fun place node hplace => h (name :: place) node (get?_cons_eq_some_iff.2 ⟨inner, hchild, hplace⟩)

theorem Readable.of_isDir {n : Node} (h : n.Readable) (hdir : n.isDir = true) :
    n.isReadable = true ∧ n.isSearchable = true := h [] n rfl hdir

/-- Where no two entries have one name, looking a name up finds the entry with it. -/
theorem lookup_eq_some_iff_mem {entries : List (Bytes × Node)} (h : (entries.map Prod.fst).Nodup)
    {name : Bytes} {inner : Node} : entries.lookup name = some inner ↔ (name, inner) ∈ entries := by
  rw [List.lookup_eq_some_iff]
  constructor
  · intro ⟨front, behind, heq, _⟩
    simp [heq]
  · intro hmem
    obtain ⟨front, behind, rfl⟩ := List.append_of_mem hmem
    refine ⟨front, behind, rfl, fun entry hentry => ?_⟩
    rw [List.map_append, List.map_cons] at h
    have hne : entry.1 ≠ name :=
      (List.nodup_append.1 h).2.2 entry.1 (List.mem_map_of_mem hentry) name List.mem_cons_self
    simpa using Ne.symm hne

theorem Legal.isName_of_child? {n inner : Node} {name : Bytes} (h : n.Legal)
    (hchild : n.child? name = some inner) : Disk.IsName name := by
  cases n with
  | dir entries mode =>
    have hmem := (lookup_eq_some_iff_mem (h [] entries mode rfl).nodup).1 hchild
    exact (h [] entries mode rfl).isName _ hmem
  | file content mode => exact absurd hchild (by simp [child?])
  | link target => exact absurd hchild (by simp [child?])

theorem Legal.isName_of_get? {n inner : Node} {place : List Bytes} (h : n.Legal)
    (hplace : n.get? place = some inner) : ∀ name ∈ place, Disk.IsName name := by
  induction place generalizing n with
  | nil => simp
  | cons name rest ih =>
    obtain ⟨next, hchild, hrest⟩ := get?_cons_eq_some_iff.1 hplace
    exact List.forall_mem_cons.2 ⟨h.isName_of_child? hchild, ih (h.child hchild) hrest⟩

/-! ### Trees built from their entries -/

theorem get?_of_ne_nil {n : Node} (h : n.isDir = false) {place : List Bytes} (hne : place ≠ []) :
    n.get? place = none := by
  obtain ⟨name, rest, rfl⟩ := List.exists_cons_of_ne_nil hne
  cases n with
  | dir entries mode => exact absurd h (by simp [isDir])
  | file content mode => rfl
  | link target => rfl

theorem legal_of_not_isDir {n : Node} (h : n.isDir = false) : n.Legal := by
  intro place entries mode hplace
  obtain rfl | hne := eq_or_ne place []
  · obtain rfl : n = .dir entries mode := by simpa [get?] using hplace
    exact absurd h (by simp [isDir])
  · exact absurd hplace (by simp [get?_of_ne_nil h hne])

theorem readable_of_not_isDir {n : Node} (h : n.isDir = false) : n.Readable := by
  intro place inner hplace hdir
  obtain rfl | hne := eq_or_ne place []
  · obtain rfl : n = inner := by simpa [get?] using hplace
    exact absurd hdir (by simp [h])
  · exact absurd hplace (by simp [get?_of_ne_nil h hne])

theorem legal_dir {entries : List (Bytes × Node)} {mode : Nat} (hentries : LegalEntries entries)
    (h : ∀ entry ∈ entries, entry.2.Legal) : (dir entries mode).Legal := by
  intro place below mode' hplace
  cases place with
  | nil =>
    obtain ⟨rfl, rfl⟩ : entries = below ∧ mode = mode' := by simpa [get?] using hplace
    exact hentries
  | cons name rest =>
    obtain ⟨n, hchild, hrest⟩ := get?_cons_eq_some_iff.1 hplace
    have hmem := (lookup_eq_some_iff_mem hentries.nodup).1 hchild
    exact h (name, n) hmem rest below mode' hrest

theorem readable_dir {entries : List (Bytes × Node)} {mode : Nat}
    (hmode : (dir entries mode).isReadable = true ∧ (dir entries mode).isSearchable = true)
    (h : ∀ entry ∈ entries, entry.2.Readable) : (dir entries mode).Readable := by
  intro place inner hplace hdir
  cases place with
  | nil =>
    obtain rfl : dir entries mode = inner := by simpa [get?] using hplace
    exact hmode
  | cons name rest =>
    obtain ⟨n, hchild, hrest⟩ := get?_cons_eq_some_iff.1 hplace
    obtain ⟨front, behind, heq, -⟩ := List.lookup_eq_some_iff.1 hchild
    exact h (name, n) (by rw [heq]; simp) rest inner hrest hdir

/-! ### Everything below a node -/

theorem entriesBelow_eq (trail : List Bytes) (entries : List (Bytes × Node)) :
    entriesBelow trail entries = entries.flatMap fun entry =>
      (entry.1 :: trail, entry.2) :: descendants (entry.1 :: trail) entry.2 := by
  induction entries with
  | nil => rfl
  | cons entry entries ih =>
    rw [entriesBelow, ih, List.flatMap_cons, List.cons_append]

/-- The descendants of a node are the nodes at the places below it. -/
theorem mem_descendants_iff {n : Node} (hlegal : n.Legal) {trail way : List Bytes} {inner : Node} :
    (way, inner) ∈ descendants trail n ↔
      ∃ place, place ≠ [] ∧ way = place.reverse ++ trail ∧ n.get? place = some inner := by
  induction n using entries_induction generalizing trail way inner with
  | file content mode =>
    simp only [descendants, List.not_mem_nil, false_iff]
    intro h
    obtain ⟨place, hne, -, hplace⟩ := h
    have hnone : (file content mode).get? place = none := get?_of_ne_nil rfl hne
    exact absurd hplace (by simp [hnone])
  | link target =>
    simp only [descendants, List.not_mem_nil, false_iff]
    intro h
    obtain ⟨place, hne, -, hplace⟩ := h
    have hnone : (link target).get? place = none := get?_of_ne_nil rfl hne
    exact absurd hplace (by simp [hnone])
  | dir entries mode ih =>
    have hchild : ∀ name node,
        (dir entries mode).child? name = some node ↔ (name, node) ∈ entries := by
      intro name node
      exact lookup_eq_some_iff_mem (hlegal [] entries mode rfl).nodup
    rw [descendants, entriesBelow_eq, List.mem_flatMap]
    constructor
    · intro h
      obtain ⟨⟨name, node⟩, hentry, hmem⟩ := h
      have hnode := (hchild name node).2 hentry
      rw [List.mem_cons, ih (name, node) hentry (hlegal.child hnode)] at hmem
      obtain heq | ⟨place, hne, rfl, hplace⟩ := hmem
      · obtain ⟨rfl, rfl⟩ := Prod.mk.inj heq
        exact ⟨[name], by simp, rfl, get?_cons_eq_some_iff.2 ⟨_, hnode, rfl⟩⟩
      · exact ⟨name :: place, by simp, by simp, get?_cons_eq_some_iff.2 ⟨node, hnode, hplace⟩⟩
    · intro h
      obtain ⟨place, hne, hway, hplace⟩ := h
      obtain ⟨name, rest, rfl⟩ := List.exists_cons_of_ne_nil hne
      obtain ⟨node, hnode, hrest⟩ := get?_cons_eq_some_iff.1 hplace
      have hentry := (hchild name node).1 hnode
      refine ⟨(name, node), hentry, ?_⟩
      rw [List.mem_cons, ih (name, node) hentry (hlegal.child hnode)]
      cases rest with
      | nil =>
        obtain rfl : node = inner := by simpa [get?] using hrest
        exact .inl (by rw [hway]; rfl)
      | cons next rest => exact .inr ⟨next :: rest, by simp, by simpa using hway, hrest⟩

/-- No place is a descendant twice. -/
theorem nodup_descendants {n : Node} (h : n.Legal) (trail : List Bytes) :
    ((descendants trail n).map Prod.fst).Nodup := by
  induction n using entries_induction generalizing trail with
  | file content mode => simp [descendants]
  | link target => simp [descendants]
  | dir entries mode ih =>
    have hnodup := (h [] entries mode rfl).nodup
    have hlegal : ∀ entry ∈ entries, entry.2.Legal := fun entry hentry =>
      h.child ((lookup_eq_some_iff_mem hnodup).2 hentry)
    -- What lies at or below an entry has its name on its way, right behind the trail.
    have hway : ∀ entry ∈ entries, ∀ way ∈ ((entry.1 :: trail, entry.2) ::
        descendants (entry.1 :: trail) entry.2).map Prod.fst,
        ∃ front, way = front ++ entry.1 :: trail := by
      intro entry hentry way hmem
      obtain ⟨⟨_, inner⟩, hinner, rfl⟩ := List.mem_map.1 hmem
      rw [List.mem_cons, mem_descendants_iff (hlegal entry hentry)] at hinner
      obtain heq | ⟨place, _, hplace, _⟩ := hinner
      · exact ⟨[], congrArg Prod.fst heq⟩
      · exact ⟨place.reverse, hplace⟩
    rw [descendants, entriesBelow_eq, List.map_flatMap, List.nodup_flatMap]
    constructor
    · intro entry hentry
      rw [List.map_cons, List.nodup_cons]
      refine ⟨fun hmem => ?_, ih entry hentry (hlegal entry hentry) _⟩
      obtain ⟨⟨_, inner⟩, hinner, heq⟩ := List.mem_map.1 hmem
      rw [mem_descendants_iff (hlegal entry hentry)] at hinner
      obtain ⟨place, hne, hplace, _⟩ := hinner
      exact hne (by simpa [hplace] using heq)
    · refine (List.pairwise_map.1 hnodup).imp_of_mem fun {entry other} hentry hother hne => ?_
      intro way hmem hmem'
      obtain ⟨front, hfront⟩ := hway entry hentry way hmem
      obtain ⟨front', hfront'⟩ := hway other hother way hmem'
      have hsame := List.append_inj_right' (hfront.symm.trans hfront') (by simp)
      exact hne (List.cons.inj hsame).1

end CleanDiff.Node
