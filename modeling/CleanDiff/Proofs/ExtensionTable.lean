import CleanDiff.Config.Basic
import CleanDiff.Proofs.Utf8

/-!
# The table of extensions

**Settings that are read from a file have a table of extensions that is a map**
(`Config.isMap_ofContent`): each key once, and the keys in ascending order of their bytes,
whatever the order in which the file lists them, in either format. An entry is always put in at
its place (`Ascending.insertSorted`), so every step of reading keeps the order.
-/

namespace CleanDiff

/-! ### Putting an entry in -/

/-- Each key once, in ascending order. -/
def Ascending (entries : List (Text × Text)) : Prop :=
  entries.Pairwise fun entry later => entry.1 < later.1

theorem mem_insertSorted {key value : Text} {entries : List (Text × Text)} {entry : Text × Text}
    (h : entry ∈ insertSorted key value entries) : entry = (key, value) ∨ entry ∈ entries := by
  fun_induction insertSorted key value entries with
  | case1 => simpa using h
  | case2 first rest hlt => simpa using h
  | case3 first rest hge heq =>
      rcases List.mem_cons.1 h with rfl | h
      · exact Or.inl rfl
      · exact Or.inr (List.mem_cons_of_mem _ h)
  | case4 first rest hge hne ih =>
      rcases List.mem_cons.1 h with rfl | h
      · exact Or.inr List.mem_cons_self
      · exact (ih h).imp_right (List.mem_cons_of_mem _)

theorem Ascending.insertSorted {entries : List (Text × Text)} (h : Ascending entries)
    (key value : Text) : Ascending (insertSorted key value entries) := by
  fun_induction CleanDiff.insertSorted key value entries with
  | case1 => simp [Ascending]
  | case2 first rest hlt =>
      refine List.Pairwise.cons ?_ h
      intro entry hentry
      rcases List.mem_cons.1 hentry with rfl | hentry
      · exact hlt
      · exact List.lt_trans hlt ((List.pairwise_cons.1 h).1 entry hentry)
  | case3 first rest hge heq =>
      subst heq
      exact List.Pairwise.cons (List.pairwise_cons.1 h).1 (List.pairwise_cons.1 h).2
  | case4 first rest hge hne ih =>
      have hlt : first.1 < key := by
        rcases List.le_iff_lt_or_eq.1 (List.not_lt.1 hge) with hlt | heq
        · exact hlt
        · exact absurd heq.symm hne
      refine List.Pairwise.cons ?_ (ih (List.pairwise_cons.1 h).2)
      intro entry hentry
      rcases mem_insertSorted hentry with rfl | hentry
      · exact hlt
      · exact (List.pairwise_cons.1 h).1 entry hentry

/-- What every step keeps, a run of steps keeps that may fail. -/
theorem foldlM_invariant {α β : Type} {motive : β → Prop} {step : β → α → Option β}
    (hstep : ∀ b a b', motive b → step b a = some b' → motive b') {items : List α} {b b' : β}
    (hb : motive b) (h : items.foldlM step b = some b') : motive b' := by
  induction items generalizing b with
  | nil =>
      obtain rfl : b = b' := Option.some.inj h
      exact hb
  | cons a items ih =>
      rw [List.foldlM_cons] at h
      obtain ⟨next, hnext, h⟩ := Option.bind_eq_some_iff.1 h
      exact ih (hstep b a next hb hnext) h

/-! ### Reading settings -/

namespace Config

/-- The table of extensions is a map: each key once, in ascending order of their bytes. -/
def IsMap (c : Config) : Prop :=
  c.extensions.Pairwise fun entry later => Utf8.encode entry.1 < Utf8.encode later.1

theorem isMap_iff {c : Config} : c.IsMap ↔ Ascending c.extensions := by
  simp only [IsMap, Ascending, Utf8.encode_lt_encode_iff]

namespace Draft

theorem ascending_addExtension {d d' : Draft} {ext grammar : Text}
    (hd : Ascending d.config.extensions) (h : d.addExtension ext grammar = some d') :
    Ascending d'.config.extensions := by
  unfold addExtension at h
  split at h
  · exact absurd h (by simp)
  · obtain rfl := Option.some.inj h
    exact hd.insertSorted ext grammar

theorem ascending_addMembers {d d' : Draft} {members : List (Toml.Key × Text)}
    (hd : Ascending d.config.extensions) (h : d.addMembers members = some d') :
    Ascending d'.config.extensions := by
  refine foldlM_invariant (motive := fun d => Ascending d.config.extensions) ?_ hd h
  intro d m d' hd hstep
  split at hstep
  · exact ascending_addExtension hd hstep
  · exact absurd hstep (by simp)

theorem ascending_assign {d d' : Draft} {key : List String} {last : Text} {value : Toml.Value}
    (hd : Ascending d.config.extensions) (h : d.assign key last value = some d') :
    Ascending d'.config.extensions := by
  unfold assign at h
  split at h
  · split at h
    · exact absurd h (by simp)
    · obtain rfl := Option.some.inj h
      exact hd
  · split at h
    · exact absurd h (by simp)
    · obtain rfl := Option.some.inj h
      exact hd
  · split at h
    · exact ascending_addMembers (d := { d with extensions := .closed }) hd h
    · exact absurd h (by simp)
  · split at h
    · exact ascending_addExtension (d := { d with extensions := .closed }) hd h
    · exact absurd h (by simp)
  · split at h
    · exact absurd h (by simp)
    · exact ascending_addExtension (d := { d with extensions := .dotted }) hd h
  · exact absurd h (by simp)

theorem ascending_step {d d' : Draft} {statement : Toml.Statement}
    (hd : Ascending d.config.extensions) (h : d.step statement = some d') :
    Ascending d'.config.extensions := by
  unfold step at h
  split at h
  · split at h
    · obtain rfl := Option.some.inj h
      exact hd
    · exact absurd h (by simp)
  · split at h
    · split at h
      · exact ascending_addExtension hd h
      · exact absurd h (by simp)
    · exact ascending_assign hd h

end Draft

theorem ascending_ofToml? {t : Text} {c : Config} (h : ofToml? t = some c) :
    Ascending c.extensions := by
  unfold ofToml? at h
  obtain ⟨statements, -, h⟩ := Option.bind_eq_some_iff.1 h
  obtain ⟨draft, hdraft, h⟩ := Option.bind_eq_some_iff.1 h
  obtain rfl := Option.some.inj h
  have hstart : Ascending ({} : Draft).config.extensions := List.Pairwise.nil
  exact foldlM_invariant (motive := fun d => Ascending d.config.extensions)
    (fun d s d' hd hs => Draft.ascending_step hd hs) hstart hdraft

theorem ascending_extensionsOfJson? {v : Json} {entries : List (Text × Text)}
    (h : extensionsOfJson? v = some entries) : Ascending entries := by
  unfold extensionsOfJson? at h
  split at h
  · refine foldlM_invariant (motive := Ascending) ?_ List.Pairwise.nil h
    intro entries m entries' hentries hstep
    obtain ⟨s, -, rfl⟩ := Option.map_eq_some_iff.1 hstep
    exact hentries.insertSorted m.1 s
  · exact absurd h (by simp)

theorem ascending_ofJson? {v : Json} {c : Config} (h : ofJson? v = some c) :
    Ascending c.extensions := by
  unfold ofJson? at h
  split at h
  · split at h
    · obtain rfl := Option.some.inj h
      exact List.Pairwise.nil
    · obtain ⟨r, -, h⟩ := Option.bind_eq_some_iff.1 h
      obtain rfl := Option.some.inj h
      exact List.Pairwise.nil
    · obtain ⟨r, -, h⟩ := Option.bind_eq_some_iff.1 h
      obtain ⟨d, -, h⟩ := Option.bind_eq_some_iff.1 h
      obtain rfl := Option.some.inj h
      exact List.Pairwise.nil
    · obtain ⟨r, -, h⟩ := Option.bind_eq_some_iff.1 h
      obtain ⟨d, -, h⟩ := Option.bind_eq_some_iff.1 h
      obtain ⟨e, he, h⟩ := Option.bind_eq_some_iff.1 h
      obtain rfl := Option.some.inj h
      exact ascending_extensionsOfJson? he
    · exact absurd h (by simp)
  · split at h
    · have hstart : Ascending ({} : Config).extensions := List.Pairwise.nil
      refine foldlM_invariant (motive := fun c : Config => Ascending c.extensions) ?_ hstart h
      intro c m c' hc hstep
      split at hstep
      · obtain ⟨r, -, rfl⟩ := Option.map_eq_some_iff.1 hstep
        exact hc
      · obtain ⟨d, -, rfl⟩ := Option.map_eq_some_iff.1 hstep
        exact hc
      · obtain ⟨e, he, rfl⟩ := Option.map_eq_some_iff.1 hstep
        exact ascending_extensionsOfJson? he
      · exact absurd hstep (by simp)
    · exact absurd h (by simp)
  · exact absurd h (by simp)

/-- Settings that are read from a file have a map. -/
theorem isMap_ofContent {path : Path} {content : Text} {c : Config}
    (h : ofContent path content = .ok c) : c.IsMap := by
  rw [isMap_iff]
  unfold ofContent at h
  simp only at h
  split at h
  · exact absurd h (by simp)
  · next format _ =>
    split at h
    · next read hread =>
      obtain rfl := Except.ok.inj h
      show Ascending read.extensions
      cases format with
      | toml => exact ascending_ofToml? hread
      | json =>
          obtain ⟨v, -, hv⟩ := Option.bind_eq_some_iff.1 hread
          exact ascending_ofJson? hv
    · exact absurd h (by simp)

end Config

end CleanDiff
