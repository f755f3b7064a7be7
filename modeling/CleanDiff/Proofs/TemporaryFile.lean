import CleanDiff.Disk.AtomicWrite
import CleanDiff.Proofs.Leading
import CleanDiff.Proofs.Utf8
import Mathlib.Data.List.TakeWhile

/-!
# The files of a disk while one is written

A file is written through a temporary file beside it. Before that the directories that lead to
it are made, which adds directories to the disk and nothing else (`prepares_createDirs`). The
temporary file is opened at a name that is free (`spare_of_openEmpty`), and from then on **all
that is done to it only replaces it**: each disk on the way is the one before it was opened
with some file put at its place (`Spare`), and removing the file gives back the disk as it was
(`Spare.remove_eq`).
-/

namespace CleanDiff

namespace Disk

variable {d d' : Disk}

/-! ### Names at the end of a path -/

theorem slash_not_mem_encode {t : Text} (h : '/' ∉ t) : slash ∉ Utf8.encode t := by
  intro hslash
  obtain ⟨c, hc, hmem⟩ := List.mem_flatMap.1 hslash
  exact h (Utf8.eq_of_ascii_mem_encodeChar (a := '/') (by decide) hmem ▸ hc)

theorem getLast?_of_components {path : Bytes} {front : List Bytes} {name : Bytes}
    (h : components path = front ++ [name]) (hnil : name ≠ []) : path.getLast? ≠ some slash := by
  intro hslash
  rw [components_eq, ending, if_pos hslash] at h
  exact hnil (List.cons.inj (List.append_inj_right' h rfl)).1.symm

/-- What stands behind the last slash of a path is its last component. -/
theorem exists_components_eq {t name : Text} (hnil : name ≠ []) (hslash : '/' ∉ name)
    (ht : t = name ∨ ∃ s, t = s ++ '/' :: name) :
    ∃ front, components (Utf8.encode t) = front ++ [Utf8.encode name] := by
  have hnil' := Utf8.encode_ne_nil hnil
  have hslash' := slash_not_mem_encode hslash
  have hlast : (Utf8.encode name).getLast? ≠ some slash := fun h =>
    hslash' (List.mem_of_getLast? h)
  have hparts := parts_eq_singleton hnil' hslash'
  obtain rfl | ⟨s, rfl⟩ := ht
  · exact ⟨[], by rw [components_eq, hparts, ending, if_neg hlast]; rfl⟩
  · have hbytes : Utf8.encode (s ++ '/' :: name) =
        Utf8.encode s ++ slash :: Utf8.encode name := Utf8.encode_append s ('/' :: name)
    have hlast' : (Utf8.encode s ++ slash :: Utf8.encode name).getLast? ≠ some slash := by
      rw [List.getLast?_append, List.getLast?_cons]
      obtain ⟨b, hb⟩ := Option.isSome_iff_exists.1 (List.getLast?_isSome.2 hnil')
      rw [hb] at hlast ⊢
      simpa using hlast
    refine ⟨parts (Utf8.encode s), ?_⟩
    rw [hbytes, components_eq, parts_append_slash, hparts, ending, if_neg hlast', List.append_nil]

theorem exists_components_append (p : Path) {name : Text} (hnil : name ≠ []) (hslash : '/' ∉ name) :
    ∃ front, components (p.append name).toBytes = front ++ [Utf8.encode name] := by
  refine exists_components_eq hnil hslash ?_
  have hhead : name.head? ≠ some '/' := fun h => hslash (List.mem_of_head? h)
  rw [Path.append, if_neg hhead]
  split
  · next hend =>
    obtain hempty | hend := hend
    · exact .inl (by rw [hempty, List.nil_append])
    · obtain ⟨s, hs⟩ := List.getLast?_eq_some_iff.1 hend
      exact .inr ⟨s, by rw [hs, List.append_assoc, List.singleton_append]⟩
  · exact .inr ⟨p.text, rfl⟩

/-- A text is cut behind its last slash. -/
theorem exists_append_behindLast (t : Text) :
    t = Path.behindLast '/' t ∨ ∃ s, t = s ++ '/' :: Path.behindLast '/' t := by
  unfold Path.behindLast
  have hcut := List.takeWhile_append_dropWhile (p := (· ≠ '/')) (l := t.reverse)
  cases hdrop : t.reverse.dropWhile (· ≠ '/') with
  | nil =>
    rw [hdrop, List.append_nil] at hcut
    exact .inl (by rw [hcut, List.reverse_reverse])
  | cons c rest =>
    have hc : c = '/' := by
      have hhead := List.head?_dropWhile_not (· ≠ '/') t.reverse
      rw [hdrop] at hhead
      simpa using hhead
    have ht := congrArg List.reverse hcut
    rw [hdrop, hc, List.reverse_append, List.reverse_reverse, List.reverse_cons, List.append_assoc,
      List.singleton_append] at ht
    exact .inr ⟨rest.reverse, ht.symm⟩

theorem slash_not_mem_behindLast (t : Text) : '/' ∉ Path.behindLast '/' t := by
  intro hslash
  have htake := List.mem_takeWhile_imp (List.mem_reverse.1 hslash)
  simp at htake

theorem behindLast_append (t : Text) {c : Char} (hc : c ≠ '/') :
    Path.behindLast '/' (t ++ [c]) = Path.behindLast '/' t ++ [c] := by
  simp [Path.behindLast, hc]

theorem encode_dot : Utf8.encode ['.'] = dot := by decide

theorem encode_dotDot : Utf8.encode ['.', '.'] = dotDot := by decide

/-- The end of a path is not trimmed unless it is a slash or a slash and a dot. -/
theorem trimmed_eq {t : Text} (hslash : t.getLast? ≠ some '/')
    (hdot : Path.behindLast '/' t ≠ ['.']) : Components.trimmed '/' '.' t = t := by
  obtain ⟨r, rfl⟩ : ∃ r : Text, t = r.reverse := ⟨t.reverse, t.reverse_reverse.symm⟩
  rw [Components.trimmed, List.reverse_reverse]
  cases r with
  | nil => rfl
  | cons c r =>
    have hc : c ≠ '/' := by simpa using hslash
    cases r with
    | nil => rfl
    | cons c' r =>
      rw [Components.trimReversed, if_neg hc, if_neg]
      rintro ⟨rfl, rfl⟩
      exact hdot (by simp [Path.behindLast])

/-- A path that ends with a name is cut in front of this name. -/
theorem entryName?_of_components {p : Path} {front : List Bytes} {name : Bytes}
    (h : components p.toBytes = front ++ [name]) (hname : IsEntry name) :
    ∃ e, p.entryName? = some e ∧ Utf8.encode e = name := by
  have hslash : p.text.getLast? ≠ some '/' := by
    intro hlast
    obtain ⟨s, hs⟩ := List.getLast?_eq_some_iff.1 hlast
    have hbytes : p.toBytes = Utf8.encode s ++ [slash] := by
      rw [Path.toBytes, hs, Utf8.encode_append]
      rfl
    exact getLast?_of_components h hname.ne_nil (by simp [hbytes])
  have hbehind : Path.behindLast '/' p.text ≠ [] := by
    obtain hempty | ⟨s, c, hs⟩ := List.eq_nil_or_concat p.text
    · rw [Path.toBytes, hempty] at h
      exact absurd h (by simp [Utf8.encode, components])
    · rw [hs, List.concat_eq_append] at hslash ⊢
      rw [behindLast_append s (by simpa using hslash)]
      simp
  obtain ⟨front', hcomponents⟩ := exists_components_eq hbehind (slash_not_mem_behindLast p.text)
    (exists_append_behindLast p.text)
  have hend : Utf8.encode (Path.behindLast '/' p.text) = name :=
    (List.cons.inj (List.append_inj_right' (hcomponents.symm.trans h) rfl)).1
  have hdot' : Path.behindLast '/' p.text ≠ ['.'] := fun heq =>
    hname.ne_dot (by rw [← hend, heq, encode_dot])
  have hup' : Path.behindLast '/' p.text ≠ ['.', '.'] := fun heq =>
    hname.ne_dotDot (by rw [← hend, heq, encode_dotDot])
  have hlast : Components.last '/' '.' p.text = Path.behindLast '/' p.text := by
    rw [Components.last, trimmed_eq hslash hdot', Path.behindLast]
  refine ⟨_, ?_, hend⟩
  rw [Path.entryName?, hlast]
  split
  · next heq => exact absurd heq hbehind
  · next heq => exact absurd heq hdot'
  · next heq => exact absurd heq hup'
  · rfl

theorem slash_not_mem_entryName {p : Path} {e : Text} (h : p.entryName? = some e) : '/' ∉ e := by
  have hlast : '/' ∉ Components.last '/' '.' p.text := slash_not_mem_behindLast _
  rw [Path.entryName?] at h
  split at h
  · exact absurd h (by simp)
  · exact absurd h (by simp)
  · exact absurd h (by simp)
  · exact Option.some.inj h ▸ hlast

/-! ### The name of the temporary file -/

/-- The name of the temporary file as the disk takes it. -/
def temporaryEntry (d : Disk) (path : Path) : Bytes := Utf8.encode (d.temporaryName path)

theorem slash_not_mem_temporaryName (d : Disk) (path : Path) : '/' ∉ d.temporaryName path := by
  have hname : '/' ∉ path.entryName?.getD [] := by
    cases h : path.entryName? with
    | none => simp
    | some e => exact slash_not_mem_entryName h
  have hdigits : '/' ∉ Nat.toDigits 10 d.process := fun hmem =>
    absurd (Nat.isDigit_of_mem_toDigits (by decide) (by decide) hmem) (by decide)
  simp [temporaryName, hname, hdigits]

theorem length_temporaryName (d : Disk) (path : Path) :
    (path.entryName?.getD []).length + 2 < (d.temporaryName path).length := by
  have hending : ".unnoise.tmp".toList.length = 12 := by decide
  simp only [temporaryName, List.length_cons, List.length_append, hending]
  omega

theorem isEntry_temporaryEntry (d : Disk) (path : Path) : IsEntry (d.temporaryEntry path) := by
  have hlength := d.length_temporaryName path
  refine ⟨Utf8.encode_ne_nil fun h => ?_, fun h => ?_, fun h => ?_⟩
  · exact absurd hlength (by simp [h])
  · have hname := Utf8.encode_injective (h.trans encode_dot.symm)
    exact absurd hlength (by simp [hname])
  · have hname := Utf8.encode_injective (h.trans encode_dotDot.symm)
    exact absurd hlength (by simp [hname])

/-- The path of the temporary file. -/
def temporaryPath (d : Disk) (path : Path) : Path := path.withEntryName (d.temporaryName path)

theorem components_temporaryPath (d : Disk) (path : Path) :
    ∃ front, components (d.temporaryPath path).toBytes = front ++ [d.temporaryEntry path] := by
  have hnil : d.temporaryName path ≠ [] := by simp [temporaryName]
  have hslash := d.slash_not_mem_temporaryName path
  unfold temporaryPath Path.withEntryName
  split
  · exact exists_components_append _ hnil hslash
  · exact exists_components_append _ hnil hslash

/-- No path ends with the name of its own temporary file. -/
theorem temporaryEntry_ne_of_components {path : Path} {front : List Bytes} {name : Bytes}
    (h : components path.toBytes = front ++ [name]) (hname : IsEntry name) (d : Disk) :
    name ≠ d.temporaryEntry path := by
  obtain ⟨e, hentry, rfl⟩ := entryName?_of_components h hname
  intro hsame
  have hlength := d.length_temporaryName path
  rw [hentry, ← Utf8.encode_injective hsame] at hlength
  exact absurd hlength (by simp)

/-! ### The files of a disk -/

/-- The file or link at a place. -/
def fileAt (d : Disk) (place : List Bytes) : Option Node :=
  (d.root.get? place).filter fun node => !node.isDir

theorem fileAt_eq_some_iff {place : List Bytes} {node : Node} :
    d.fileAt place = some node ↔ d.root.get? place = some node ∧ node.isDir = false := by
  simp [fileAt, Option.filter_eq_some_iff]

/-- What lies below the nodes does not count. -/
theorem fileAt_eq_of_bare {place : List Bytes}
    (h : (d'.root.get? place).map Node.bare = (d.root.get? place).map Node.bare) :
    d'.fileAt place = d.fileAt place := by
  have hbare : ∀ d : Disk, d.fileAt place =
      ((d.root.get? place).map Node.bare).filter fun node => !node.isDir := by
    intro d
    unfold fileAt
    cases d.root.get? place with
    | none => rfl
    | some node =>
      cases hdir : node.isDir with
      | true => simp [Option.filter, hdir]
      | false => rw [Option.map_some, Node.bare_of_not_isDir hdir]
  rw [hbare, hbare, h]

theorem put_put (d : Disk) (place : List Bytes) (node node' : Node) :
    (d.put place (some node)).put place (some node') = d.put place (some node') :=
  congrArg (fun root => { d with root }) (Node.set_set d.root node node' place)

/-- A file put into a directory, at a free name or over another file, is all that changes. -/
theorem fileAt_put {front : List Bytes} {name : Bytes} {outer node : Node}
    (houter : d.root.get? front = some outer) (hdir : outer.isDir = true)
    (hplace : ∀ old, d.root.get? (front ++ [name]) = some old → old.isDir = false)
    (hnode : node.isDir = false) (place : List Bytes) :
    (d.put (front ++ [name]) (some node)).fileAt place =
      if place = front ++ [name] then some node else d.fileAt place := by
  have hself := Node.get?_set_self houter hdir name node
  by_cases hsame : place = front ++ [name]
  · rw [if_pos hsame, fileAt_eq_some_iff, hsame]
    exact ⟨hself, hnode⟩
  rw [if_neg hsame]
  by_cases hprefix : front ++ [name] <+: place
  · -- Nothing lies below a file, neither the new one nor the old one.
    have hbelow : ∀ n : Node, (∀ old, n.get? (front ++ [name]) = some old → old.isDir = false) →
        n.get? place = none := fun n hn =>
      Option.eq_none_iff_forall_ne_some.2 fun inner hinner =>
        hsame (Node.eq_of_begins hn hprefix hinner)
    have hnew := hbelow (d.put (front ++ [name]) (some node)).root fun old hold =>
      Option.some.inj (hself.symm.trans hold) ▸ hnode
    exact fileAt_eq_of_bare (by rw [hnew, hbelow d.root hplace])
  · exact fileAt_eq_of_bare (Node.bare_get?_set d.root node hprefix)

/-! ### Making directories -/

/-- The second disk is the first one with more directories. -/
structure Prepares (d d' : Disk) : Prop where
  rest : d' = { d with root := d'.root }
  grows : d.root.Grows d'.root

theorem Prepares.refl (d : Disk) : d.Prepares d := ⟨rfl, .refl d.root⟩

theorem Prepares.trans {d'' : Disk} (h : d.Prepares d') (h' : d'.Prepares d'') :
    d.Prepares d'' where
  rest := by rw [h'.rest, h.rest]
  grows := h.grows.trans h'.grows

theorem Prepares.keepsWays (h : d.Prepares d') : d.KeepsWays d' where
  current := by rw [h.rest]
  gone := by rw [h.rest]
  ways place node hnode _ := h.grows.kept place node hnode

theorem Prepares.fileAt (h : d.Prepares d') (place : List Bytes) :
    d'.fileAt place = d.fileAt place := by
  cases hplace : d.root.get? place with
  | some node =>
    obtain ⟨node', hnode', hbare⟩ := h.grows.kept place node hplace
    exact fileAt_eq_of_bare (by rw [hnode', hplace, Option.map_some, Option.map_some, hbare])
  | none =>
    have hnone : d.fileAt place = none := by rw [Disk.fileAt, hplace, Option.filter_none]
    rw [hnone, Option.eq_none_iff_forall_not_mem]
    intro node hnode
    obtain ⟨hget, hfile⟩ := fileAt_eq_some_iff.1 hnode
    exact absurd (h.grows.isDir place node hplace hget) (by simp [hfile])

theorem prepares_makeDir (hd : d.Sound) {path : Bytes} (h : d.makeDir path = .ok d') :
    d.Prepares d' := by
  unfold makeDir at h
  split at h
  · next parent name hlocate =>
    obtain hon | ⟨trail, hfound, -⟩ := locate_on hd hlocate
    · obtain ⟨hparent, hfree⟩ := hon.get?_of_free
      dsimp only at h
      split at h
      · obtain rfl := Except.ok.inj h
        exact ⟨rfl, Node.grows_set hparent.get?_names hparent.isDir hfree _⟩
      · exact absurd h (by simp)
    · exact absurd hfound (by simp)
  · exact absurd h (by simp)
  · exact absurd h (by simp)

theorem prepares_ensureDir (hd : d.Sound) (path : Bytes) : d.Prepares (d.ensureDir path).1 := by
  unfold ensureDir
  cases h : d.makeDir path with
  | ok d' => exact prepares_makeDir hd h
  | error e => exact .refl d

theorem prepares_makeDirs (fuel : Nat) (hd : d.Sound) (path : Bytes) :
    d.Prepares (makeDirs fuel d path).1 := by
  induction fuel generalizing d path with
  | zero => exact .refl d
  | succ fuel ih =>
    have hensure := prepares_ensureDir hd path
    rw [makeDirs]
    split
    · exact .refl d
    · split
      · next d₁ heq =>
        rw [heq] at hensure
        split
        · exact hensure
        · next parent hparent =>
          have hd₁ := hensure.keepsWays.sound hd
          have hparents := hensure.trans (ih hd₁ parent)
          split
          · next d₂ e heq' =>
            rw [heq'] at hparents
            exact hparents
          · next d₂ heq' =>
            rw [heq'] at hparents
            exact hparents.trans (prepares_ensureDir (hparents.keepsWays.sound hd) path)
      · exact hensure

/-- **Making directories changes no file**, also where it fails on the way. -/
theorem prepares_createDirs (hd : d.Sound) (path : Bytes) : d.Prepares (d.createDirs path).1 :=
  prepares_makeDirs _ hd path

/-! ### A file where there was none -/

/-- A path leads to a place at which there is nothing, in a directory in which files may be
made. It still does so, also as it is, when a file is put there. -/
structure Spare (d : Disk) (path : Bytes) (front : List Bytes) (name : Bytes) : Prop where
  sound : d.Sound
  noSlash : path.getLast? ≠ some slash
  free : d.root.get? (front ++ [name]) = none
  outer : ∃ outer, d.root.get? front = some outer ∧ outer.isDir = true ∧ outer.isWritable = true
  leads : ∀ content mode last, ∃ trail,
    (d.put (front ++ [name]) (some (.file content mode))).locate last path = .ok (.found trail) ∧
      (Place.found trail).On (d.put (front ++ [name]) (some (.file content mode))) ∧
      names trail = front ++ [name]

/-- A file at a free place, or in the place of a file, leaves all ways as they are. -/
theorem keepsWays_put {place : List Bytes}
    (hplace : ∀ old, d.root.get? place = some old → old.isFile = true) (node : Node) :
    d.KeepsWays (d.put place (some node)) where
  current := rfl
  gone := rfl
  ways other inner hinner hway := by
    have hfile : ∀ old, d.root.get? place = some old → old.isDir = false := by
      intro old hold
      obtain ⟨content, mode, rfl⟩ := Node.exists_file_of_isFile (hplace old hold)
      rfl
    have hprefix : ¬ place <+: other := by
      intro hprefix
      obtain rfl := Node.eq_of_begins hfile hprefix hinner
      exact absurd hway (by simp [hplace inner hinner])
    have hbare := Node.bare_get?_set d.root node hprefix
    rw [hinner] at hbare
    exact Option.map_eq_some_iff.1 hbare

/-- What is put at a place that is no directory does not touch the current one. -/
theorem sound_put (hd : d.Sound) {place : List Bytes}
    (hplace : ∀ old, d.root.get? place = some old → old.isDir = false) (node : Node) :
    (d.put place (some node)).Sound where
  gone_le := hd.gone_le
  live := by
    obtain ⟨inner, hinner, hdir⟩ := hd.live
    have hprefix : ¬ place <+: d.live := by
      intro hprefix
      rw [Node.eq_of_begins hplace hprefix hinner] at hinner
      exact absurd hdir (by simp [hplace inner hinner])
    have hbare := Node.bare_get?_set d.root node hprefix
    rw [hinner] at hbare
    obtain ⟨inner', hinner', hsame⟩ := Option.map_eq_some_iff.1 hbare
    exact ⟨inner', hinner', by rw [← Node.isDir_bare, hsame, Node.isDir_bare, hdir]⟩

section Spare

variable {path : Bytes} {front : List Bytes} {name : Bytes}

/-- Where no link has the name at the end of a path, the path leads to the same node as it
is. -/
theorem locate_false_of_name (hd : d.Sound) (hpath : components path = front ++ [name])
    (hname : IsEntry name)
    (hlink : ∀ dir target, d.root.get? (dir ++ [name]) ≠ some (.link target)) {trail : Trail}
    (h : d.locate true path = .ok (.found trail)) :
    d.locate false path = .ok (.found trail) ∧ (Place.found trail).On d ∧
      ∃ dir, names trail = dir ++ [name] := by
  obtain hsame | ⟨name', target, trail', hother⟩ := locate_false_of_true h
  · exact ⟨hsame, locate_name hd hpath hname hsame⟩
  · obtain ⟨hon, dir, hdir⟩ := locate_name hd hpath hname hother
    have hget := hon.get?_of_found
    rw [Place.names] at hdir
    rw [hdir] at hget
    exact absurd hget (hlink dir target)

/-- With a file at the free place that a path leads to, the path leads to the file. -/
theorem locate_put (hd : d.Sound) (hpath : components path = front ++ [name])
    (hname : IsEntry name) (hnone : ∀ dir, d.fileAt (dir ++ [name]) = none) {parent : Trail}
    {name' : Bytes} (hparent : d.Through parent)
    (hfree : d.root.get? (names parent ++ [name']) = none)
    (h : d.locate true path = .ok (.free parent name')) {node : Node} (hnode : node.isFile = true) :
    ∃ trail, names trail = names parent ++ [name'] ∧
      (d.put (names parent ++ [name']) (some node)).locate true path = .ok (.found trail) ∧
      (d.put (names parent ++ [name']) (some node)).locate false path = .ok (.found trail) ∧
      (Place.found trail).On (d.put (names parent ++ [name']) (some node)) ∧
      ∃ dir, names trail = dir ++ [name] := by
  obtain ⟨content, mode, rfl⟩ := Node.exists_file_of_isFile hnode
  generalize hd' : d.put (names parent ++ [name']) (some (.file content mode)) = d'
  have hkeeps : d.KeepsWays d' := hd' ▸ keepsWays_put (by simp [hfree]) _
  have hsound := hkeeps.sound hd
  have hfile : ∀ place, d'.fileAt place = if place = names parent ++ [name'] then
      some (.file content mode) else d.fileAt place := by
    intro place
    rw [← hd']
    exact fileAt_put hparent.get?_names hparent.isDir (by simp [hfree]) rfl place
  have hget := (fileAt_eq_some_iff.1 ((hfile _).trans (if_pos rfl))).1
  have hlink : ∀ dir target, d'.root.get? (dir ++ [name]) ≠ some (.link target) := by
    intro dir target hlink
    have hat := fileAt_eq_some_iff.2 ⟨hlink, rfl⟩
    rw [hfile, hnone] at hat
    split at hat <;> exact absurd hat (by simp)
  obtain ⟨place', hplace', hnames, hon | ⟨trail, hfound, -⟩⟩ :=
    locate_kept hkeeps hd h (by simp [Place.names, hget])
  · obtain ⟨trail, rfl, -⟩ | hnone' := hon.found_or_free
    · obtain ⟨hfalse, hon, hend⟩ := locate_false_of_name hsound hpath hname hlink hplace'
      exact ⟨trail, hnames, hplace', hfalse, hon, hend⟩
    · rw [hnames] at hnone'
      exact absurd (hnone'.symm.trans hget) (by simp)
  · exact absurd hfound (by simp)

/-- Emptying the file that a path names makes a new one where no file has the name at the
end of the path. -/
theorem spare_of_overwrite (hd : d.Sound) (hpath : components path = front ++ [name])
    (hname : IsEntry name) (hnone : ∀ dir, d.fileAt (dir ++ [name]) = none)
    (h : d.overwrite path [] = .ok d') :
    ∃ dir, d.Spare path dir name ∧ d' = d.put (dir ++ [name]) (some (.file [] 0o644)) := by
  have hslash := getLast?_of_components hpath hname.ne_nil
  have hlink : ∀ dir target, d.root.get? (dir ++ [name]) ≠ some (.link target) := by
    intro dir target hget
    have hfile := fileAt_eq_some_iff.2 ⟨hget, rfl⟩
    exact absurd (hfile.symm.trans (hnone dir)) (by simp)
  rw [overwrite, if_neg hslash] at h
  split at h
  · exact absurd h (by simp)
  · next parent name' hlocate =>
    have hfree : d.root.get? (names parent ++ [name']) = none ∧ d.Through parent := by
      obtain hon | ⟨trail, hfound, -⟩ := locate_on hd hlocate
      · exact hon.get?_of_free.symm
      · exact absurd hfound (by simp)
    obtain ⟨hfree, hparent⟩ := hfree
    split at h
    · next hwritable =>
      obtain ⟨trail, hnames, -, -, -, dir, hdir⟩ :=
        locate_put hd hpath hname hnone hparent hfree hlocate
          (rfl : (Node.file [] 0).isFile = true)
      obtain ⟨rfl, hsame⟩ := List.append_inj' (hnames.symm.trans hdir) rfl
      obtain rfl := (List.cons.inj hsame).1
      refine ⟨names parent, ⟨hd, hslash, hfree, ?_, ?_⟩, (Except.ok.inj h).symm⟩
      · exact ⟨_, hparent.get?_names, hparent.isDir, hwritable⟩
      · intro content mode last
        obtain ⟨trail, hnames, htrue, hfalse, hon, -⟩ :=
          locate_put hd hpath hname hnone hparent hfree hlocate
            (rfl : (Node.file content mode).isFile = true)
        cases last with
        | true => exact ⟨trail, htrue, hon, hnames⟩
        | false => exact ⟨trail, hfalse, hon, hnames⟩
    · exact absurd h (by simp)
  · next trail hlocate =>
    -- A file that is there has the name at the end of the path.
    obtain ⟨-, hon, dir, hdir⟩ := locate_false_of_name hd hpath hname hlink hlocate
    have hget := hdir ▸ hon.get?_of_found
    have hisDir : (d.nodeAt trail).isDir = true := by
      by_contra hfile
      exact absurd ((fileAt_eq_some_iff.2 ⟨hget, by simpa using hfile⟩).symm.trans (hnone dir))
        (by simp)
    obtain ⟨entries, mode, heq⟩ := Node.exists_entries_of_isDir hisDir
    rw [heq] at h
    exact absurd h (by simp)

/-! ### What is done to the temporary file -/

variable {content : Bytes} {mode : Nat}

theorem Spare.find_eq (h : d.Spare path front name) (content : Bytes) (mode : Nat) (last : Bool) :
    ∃ trail, (d.put (front ++ [name]) (some (.file content mode))).find last path = .ok trail ∧
      names trail = front ++ [name] ∧
      (d.put (front ++ [name]) (some (.file content mode))).nodeAt trail = .file content mode := by
  obtain ⟨trail, hlocate, hon, hnames⟩ := h.leads content mode last
  obtain ⟨outer, houter, hdir, -⟩ := h.outer
  have hget := Node.get?_set_self houter hdir name (.file content mode)
  have hnode := hon.get?_of_found
  rw [hnames] at hnode
  exact ⟨trail, by rw [find, hlocate], hnames, Option.some.inj (hnode.symm.trans hget)⟩

theorem Spare.keepsWays (h : d.Spare path front name) (node : Node) :
    d.KeepsWays (d.put (front ++ [name]) (some node)) :=
  keepsWays_put (by simp [h.free]) node

/-- Writing the temporary file replaces its content. -/
theorem Spare.overwrite_eq (h : d.Spare path front name) (old content : Bytes) :
    (d.put (front ++ [name]) (some (.file old 0o644))).overwrite path content =
      .ok (d.put (front ++ [name]) (some (.file content 0o644))) := by
  obtain ⟨trail, hlocate, hon, hnames⟩ := h.leads old 0o644 true
  obtain ⟨trail', hfind, -, hnode⟩ := h.find_eq old 0o644 true
  obtain rfl : trail = trail' := by
    rw [find, hlocate] at hfind
    exact Except.ok.inj hfind
  have hmode : Node.modeAfterWrite 0o644 = 0o644 := by decide
  have hwritable : (Node.file old 0o644).isWritable = true := by simp [Node.isWritable, Node.mode]
  rw [overwrite, if_neg h.noSlash, hlocate]
  dsimp only
  rw [hnode]
  dsimp only
  rw [if_pos hwritable, hnames, hmode, put_put]

/-- Setting the permissions of the temporary file replaces them. -/
theorem Spare.setMode_eq (h : d.Spare path front name) (content : Bytes) (old mode : Nat) :
    (d.put (front ++ [name]) (some (.file content old))).setMode path mode =
      .ok (d.put (front ++ [name]) (some (.file content mode))) := by
  obtain ⟨trail, hfind, hnames, hnode⟩ := h.find_eq content old true
  rw [setMode, hfind, Except.map, hnames, hnode, put_put, Node.withMode]

/-- The temporary file is taken away without a trace. -/
theorem Spare.put_none (h : d.Spare path front name) (content : Bytes) (mode : Nat) :
    (d.put (front ++ [name]) (some (.file content mode))).put (front ++ [name]) none = d :=
  congrArg (fun root => { d with root }) (Node.set_none_set h.free _)

theorem Sound.depthAlong_live (h : d.Sound) : d.root.depthAlong d.live = d.live.length := by
  have hdepth : ∀ (place : List Bytes) (n node : Node), n.get? place = some node →
      n.depthAlong place = place.length := by
    intro place
    induction place with
    | nil => intro n node _; rfl
    | cons name place ih =>
      intro n node hnode
      obtain ⟨inner, hchild, hrest⟩ := Node.get?_cons_eq_some_iff.1 hnode
      rw [Node.depthAlong, hchild, List.length_cons]
      exact congrArg (· + 1) (ih inner node hrest)
  obtain ⟨node, hnode, -⟩ := h.live
  exact hdepth _ _ _ hnode

/-- The directory of the temporary file may still be changed. -/
theorem Spare.isWritable_tail (h : d.Spare path front name) {trail : Trail}
    (hon : (Place.found trail).On (d.put (front ++ [name]) (some (.file content mode))))
    (hnames : names trail = front ++ [name]) :
    ((d.put (front ++ [name]) (some (.file content mode))).nodeAt trail.tail).isWritable =
      true := by
  obtain ⟨outer, houter, -, hwritable⟩ := h.outer
  have htail := hon.through_tail.get?_names
  rw [names_tail, hnames, List.dropLast_concat] at htail
  have hprefix : ¬ front ++ [name] <+: front := fun hprefix =>
    absurd hprefix.length_le (by simp)
  have hbare := Node.bare_get?_set d.root (.file content mode) hprefix
  rw [houter] at hbare
  obtain ⟨inner, hinner, hsame⟩ := Option.map_eq_some_iff.1 hbare
  have hinner' : inner = (d.put (front ++ [name]) (some (.file content mode))).nodeAt trail.tail :=
    Option.some.inj (hinner.symm.trans htail)
  rw [Node.isWritable, ← hinner', ← Node.mode_bare, hsame, Node.mode_bare]
  exact hwritable

/-- Taking nothing away leaves the current directory where it is. -/
theorem Sound.withLess_root (h : d.Sound) : d.withLess d.root = d := by
  have hlive : d.root.depthAlong (d.current.take (d.current.length - d.gone)) =
      d.current.length - d.gone := by
    have hdepth := h.depthAlong_live
    rw [Disk.live, List.length_take, Nat.min_eq_left (Nat.sub_le _ _)] at hdepth
    exact hdepth
  have hgone : d.current.length - (d.current.length - d.gone) = d.gone := by
    have := h.gone_le
    omega
  simp only [withLess, hlive, hgone]

/-- Removing the temporary file gives the disk back as it was. -/
theorem Spare.remove_eq (h : d.Spare path front name) (content : Bytes) (mode : Nat) :
    ((d.put (front ++ [name]) (some (.file content mode))).remove path).1 = d := by
  obtain ⟨trail, hlocate, hon, hnames⟩ := h.leads content mode false
  obtain ⟨trail', hfind, -, hnode⟩ := h.find_eq content mode false
  obtain rfl : trail = trail' := by
    rw [find, hlocate] at hfind
    exact Except.ok.inj hfind
  have hwritable := h.isWritable_tail hon hnames
  rw [remove, hfind]
  dsimp only
  rw [hnode, Node.cleared, if_pos ⟨rfl, hwritable⟩, hnames, h.put_none]
  exact h.sound.withLess_root

end Spare

end Disk

end CleanDiff
