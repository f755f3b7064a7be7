import CleanDiff.Proofs.ExtensionTable

/-!
# Overrides of profiles

**The profiles that settings ask for are decided by the written entries alone**
(`Config.grammars_resolve`): the entry with the least key among those that name no profile is
the error, and without such an entry an extension has the profile of the greatest key that is
the same extension, or else that of the built-in table.

Entries are inserted in order, so two facts about a list of entries carry this: which entry an
insertion stops at (`insertAll_eq_error_iff`), and that of the entries for one extension the
last one stays (`lookup_insertAll`). In a map, which the table of every file of settings is
(`Config.isMap_ofContent`), the last entry is the one with the greatest key and the first one
that with the least, and keys are compared by their bytes.
-/

namespace CleanDiff

/-! ### Written profiles -/

/-- The name that a written value stands for: no blanks around it, ASCII letters in lower
case. -/
def Grammar.writtenName (value : Text) : String := lowerAscii (String.ofList (Text.trim value))

/-- Which profile a written value asks for. -/
inductive Grammar.Asks (value : Text) : Option Grammar → Prop
  | passThrough (h : writtenName value = "none") : Asks value none
  | grammar {g : Grammar} (h : writtenName value = g.name) : Asks value (some g)

namespace Grammar

theorem name_injective : Function.Injective name := by
  intro g g' h
  cases g <;> cases g' <;> first | rfl | exact absurd h (by decide)

theorem name_ne_none (g : Grammar) : g.name ≠ "none" := by cases g <;> decide

theorem ofName?_eq_some_iff {s : String} {g : Grammar} : ofName? s = some g ↔ s = g.name := by
  constructor
  · intro h
    have hname := List.find?_some h
    simpa using Eq.symm (of_decide_eq_true hname)
  · rintro rfl
    exact ofName?_name g

theorem parseProfile_eq_ok_iff {value : Text} {profile : Option Grammar} :
    parseProfile (String.ofList value) = .ok profile ↔ Asks value profile := by
  unfold parseProfile parse
  rw [String.toList_ofList, ← writtenName]
  by_cases hnone : writtenName value = "none"
  · rw [if_pos hnone, Except.ok.injEq]
    constructor
    · rintro rfl
      exact .passThrough hnone
    · rintro (_ | @⟨g, hg⟩)
      · rfl
      · exact absurd (hg.symm.trans hnone) g.name_ne_none
  · rw [if_neg hnone]
    cases hname : ofName? (writtenName value) with
    | none =>
        constructor
        · intro h
          exact absurd h (by simp [Except.map])
        · rintro (h | @⟨g, hg⟩)
          · exact absurd h hnone
          · exact absurd (ofName?_eq_some_iff.2 hg) (by simp [hname])
    | some g =>
        have hg := ofName?_eq_some_iff.1 hname
        simp only [Except.map, Except.ok.injEq]
        constructor
        · rintro rfl
          exact .grammar hg
        · rintro (h | @⟨g', hg'⟩)
          · exact absurd h hnone
          · rw [name_injective (hg.symm.trans hg')]

/-- No value asks for two profiles. -/
theorem Asks.unique {value : Text} {profile profile' : Option Grammar} (h : Asks value profile)
    (h' : Asks value profile') : profile = profile' :=
  Except.ok.inj ((parseProfile_eq_ok_iff.2 h).symm.trans (parseProfile_eq_ok_iff.2 h'))

/-- A value that asks for no profile is reported as it is written. -/
theorem parseProfile_eq_error_iff {value : Text} {e : UnknownGrammar} :
    parseProfile (String.ofList value) = .error e ↔
      (∀ profile, ¬ Asks value profile) ∧ e = ⟨String.ofList value⟩ := by
  have hverbatim : ∀ e', parseProfile (String.ofList value) = .error e' →
      e' = ⟨String.ofList value⟩ := by
    intro e' h
    unfold parseProfile parse at h
    split at h
    · exact absurd h (by simp)
    · split at h
      · exact absurd h (by simp [Except.map])
      · exact (Except.error.inj h).symm
  constructor
  · intro h
    refine ⟨fun profile hasks => ?_, hverbatim e h⟩
    rw [parseProfile_eq_ok_iff.2 hasks] at h
    exact absurd h (by simp)
  · rintro ⟨hnot, rfl⟩
    cases h : parseProfile (String.ofList value) with
    | ok profile => exact absurd (parseProfile_eq_ok_iff.1 h) (hnot profile)
    | error e' => rw [hverbatim e' h]

end Grammar

/-! ### Extensions -/

theorem toLower_eq_dot_iff (c : Char) : c.toLower = '.' ↔ c = '.' := by
  constructor
  · intro h
    unfold Char.toLower at h
    split at h
    · next hupper =>
      -- No letter has a dot as its lower case.
      have hcode : (c.toNat + 32) % 4294967296 = 46 := by
        simpa using congrArg (fun c : Char => c.val.toNat) h
      have hlow : 65 ≤ c.toNat := UInt32.le_iff_toNat_le.1 hupper.1
      have hhigh : c.toNat ≤ 90 := UInt32.le_iff_toNat_le.1 hupper.2
      omega
    · exact h
  · rintro rfl
    rfl

theorem canonicalExtension_eq (e : String) :
    canonicalExtension e = String.ofList ((e.toList.map Char.toLower).dropWhile (· = '.')) := by
  rw [canonicalExtension, lowerAscii, String.toList_ofList, List.dropWhile_map]
  congr 3
  funext c
  simp [toLower_eq_dot_iff]

/-- Dots in front of an extension and the case of its letters do not count. -/
theorem canonicalExtension_congr {dots : Text} (hdots : ∀ c ∈ dots, c = '.') {e e' : String}
    (h : lowerAscii e' = lowerAscii e) :
    canonicalExtension (String.ofList (dots ++ e'.toList)) = canonicalExtension e := by
  have hletters : e'.toList.map Char.toLower = e.toList.map Char.toLower := by
    have hlists := congrArg String.toList h
    rwa [lowerAscii, lowerAscii, String.toList_ofList, String.toList_ofList] at hlists
  have hfront : ∀ c ∈ dots.map Char.toLower, decide (c = '.') = true := by
    intro c hc
    obtain ⟨c, hdot, rfl⟩ := List.mem_map.1 hc
    rw [hdots c hdot]
    rfl
  rw [canonicalExtension_eq, canonicalExtension_eq, String.toList_ofList, List.map_append,
    List.dropWhile_append_of_pos hfront, hletters]

namespace Registry

/-! ### Insertion of written entries -/

/-- An insertion stops at the first entry that asks for no profile. -/
theorem insertAll_eq_error_iff {r : Registry} {entries : List (String × String)}
    {e : UnknownGrammar} :
    r.insertAll entries = .error e ↔ ∃ before entry behind,
      entries = before ++ entry :: behind ∧
      (∀ other ∈ before, ∃ profile, Grammar.parseProfile other.2 = .ok profile) ∧
      Grammar.parseProfile entry.2 = .error e := by
  induction entries generalizing r with
  | nil => simp [insertAll]
  | cons entry entries ih =>
      obtain ⟨ext, value⟩ := entry
      have hstep : r.insertAll ((ext, value) :: entries) =
          (Grammar.parseProfile value).bind fun profile =>
            (r.insert ext profile).insertAll entries := rfl
      rw [hstep]
      cases hvalue : Grammar.parseProfile value with
      | error e' =>
          constructor
          · intro h
            have he : (Except.error e' : Except UnknownGrammar Registry) = .error e := h
            exact ⟨[], (ext, value), entries, rfl, by simp, by rw [hvalue, Except.error.inj he]⟩
          · rintro ⟨before, entry, behind, hsplit, hbefore, hentry⟩
            cases before with
            | nil =>
                rw [(List.cons.inj hsplit).1.symm, hvalue] at hentry
                rw [Except.error.inj hentry]
                rfl
            | cons first before =>
                obtain ⟨profile, hfirst⟩ := hbefore first List.mem_cons_self
                rw [(List.cons.inj hsplit).1.symm, hvalue] at hfirst
                exact absurd hfirst (by simp)
      | ok profile =>
          show (r.insert ext profile).insertAll entries = .error e ↔ _
          rw [ih]
          constructor
          · rintro ⟨before, entry, behind, rfl, hbefore, hentry⟩
            refine ⟨(ext, value) :: before, entry, behind, rfl, ?_, hentry⟩
            intro other hother
            rcases List.mem_cons.1 hother with rfl | hother
            · exact ⟨profile, hvalue⟩
            · exact hbefore other hother
          · rintro ⟨before, entry, behind, hsplit, hbefore, hentry⟩
            cases before with
            | nil =>
                rw [(List.cons.inj hsplit).1.symm, hvalue] at hentry
                exact absurd hentry (by simp)
            | cons first before =>
                exact ⟨before, entry, behind, (List.cons.inj hsplit).2,
                  fun other hother => hbefore other (List.mem_cons_of_mem _ hother), hentry⟩

/-- Of several entries for one extension the last one stays. -/
theorem lookup_insertAll {r r' : Registry} {entries : List (String × String)}
    (h : r.insertAll entries = .ok r') (key : String) :
    (∀ entry, entries.reverse.find? (fun e => canonicalExtension e.1 = key) = some entry →
      ∃ profile, Grammar.parseProfile entry.2 = .ok profile ∧
        r'.overrides.lookup key = some profile) ∧
    (entries.reverse.find? (fun e => canonicalExtension e.1 = key) = none →
      r'.overrides.lookup key = r.overrides.lookup key) := by
  induction entries generalizing r with
  | nil =>
      obtain rfl : r = r' := Except.ok.inj h
      simp
  | cons entry entries ih =>
      obtain ⟨ext, value⟩ := entry
      have hstep : (Grammar.parseProfile value).bind (fun profile =>
          (r.insert ext profile).insertAll entries) = .ok r' := h
      cases hvalue : Grammar.parseProfile value with
      | error e =>
          rw [hvalue] at hstep
          exact absurd hstep (by simp [Except.bind])
      | ok profile =>
          rw [hvalue] at hstep
          obtain ⟨hlater, hnone⟩ := ih hstep
          rw [List.reverse_cons, List.find?_append]
          cases hfound : entries.reverse.find? (fun e => canonicalExtension e.1 = key) with
          | some later =>
              constructor
              · rintro entry hentry
                obtain rfl : later = entry := Option.some.inj hentry
                exact hlater later hfound
              · intro hempty
                exact absurd hempty (by simp)
          | none =>
              have hlookup := hnone hfound
              by_cases hkey : canonicalExtension ext = key
              · rw [Option.none_or, List.find?_cons_of_pos (by simpa using hkey)]
                constructor
                · rintro entry hentry
                  obtain rfl := Option.some.inj hentry
                  refine ⟨profile, hvalue, hlookup.trans ?_⟩
                  rw [insert, hkey]
                  exact List.lookup_cons_self
                · intro hempty
                  exact absurd hempty (by simp)
              · rw [Option.none_or, List.find?_cons_of_neg (by simpa using hkey)]
                constructor
                · rintro entry hentry
                  exact absurd hentry (by simp)
                · intro _
                  have hbeq : (key == canonicalExtension ext) = false :=
                    beq_eq_false_iff_ne.2 (Ne.symm hkey)
                  rw [hlookup, insert, List.lookup_cons, hbeq]

end Registry

/-! ### Settings -/

namespace Config

/-- Does an entry name no profile? -/
def Fails (entry : Text × Text) : Prop := ∀ profile, ¬ Grammar.Asks entry.2 profile

/-- The entry has the least key among those that name no profile. -/
structure FirstFailure (c : Config) (entry : Text × Text) : Prop where
  mem : entry ∈ c.extensions
  fails : Fails entry
  least : ∀ other ∈ c.extensions, Fails other → Utf8.encode entry.1 ≤ Utf8.encode other.1

/-- The entry is about the extension, and its key is the greatest of those that are. -/
structure LastMatch (c : Config) (ext : String) (entry : Text × Text) : Prop where
  mem : entry ∈ c.extensions
  same : canonicalExtension (String.ofList entry.1) = canonicalExtension ext
  greatest : ∀ other ∈ c.extensions,
    canonicalExtension (String.ofList other.1) = canonicalExtension ext →
      Utf8.encode other.1 ≤ Utf8.encode entry.1

/-- An entry as two strings. -/
def asStrings (entry : Text × Text) : String × String :=
  (String.ofList entry.1, String.ofList entry.2)

theorem grammars_of_ok {c : Config} {r : Registry}
    (h : Registry.insertAll {} (c.extensions.map asStrings) = .ok r) : c.grammars = .ok r := by
  unfold grammars
  unfold asStrings at h
  simp only [h]

/-- Settings fail if an insertion does, and name the file that they come from. -/
theorem grammars_of_error {c : Config} {cause : UnknownGrammar}
    (h : Registry.insertAll {} (c.extensions.map asStrings) = .error cause) :
    c.grammars = .error (.config (c.source.getD ⟨fileName⟩) cause) := by
  unfold grammars
  unfold asStrings at h
  simp only [h]

theorem grammars_eq_ok_iff {c : Config} {r : Registry} :
    c.grammars = .ok r ↔ Registry.insertAll {} (c.extensions.map asStrings) = .ok r := by
  cases h : Registry.insertAll {} (c.extensions.map asStrings) with
  | ok r' => simp [grammars_of_ok h]
  | error cause => simp [grammars_of_error h]

theorem grammars_eq_error_iff {c : Config} {e : CleanError} :
    c.grammars = .error e ↔
      ∃ cause, Registry.insertAll {} (c.extensions.map asStrings) = .error cause ∧
        e = .config (c.source.getD ⟨fileName⟩) cause := by
  cases h : Registry.insertAll {} (c.extensions.map asStrings) with
  | ok r => simp [grammars_of_ok h]
  | error cause => simp [grammars_of_error h, eq_comm]

theorem not_fails_iff {entry : Text × Text} :
    ¬ Fails entry ↔ ∃ profile, Grammar.parseProfile (String.ofList entry.2) = .ok profile := by
  simp [Fails, Grammar.parseProfile_eq_ok_iff]

/-- In a map the entry at which an insertion stops has the least key of those that name no
profile. -/
theorem firstFailure_iff {c : Config} (hmap : c.IsMap) {entry : Text × Text} :
    c.FirstFailure entry ↔ Fails entry ∧ ∃ before behind,
      c.extensions = before ++ entry :: behind ∧ ∀ other ∈ before, ¬ Fails other := by
  constructor
  · rintro ⟨hmem, hfails, hleast⟩
    obtain ⟨before, behind, hsplit⟩ := List.append_of_mem hmem
    refine ⟨hfails, before, behind, hsplit, ?_⟩
    intro other hother hfails'
    have hmap := hmap
    rw [IsMap, hsplit, List.pairwise_append] at hmap
    have hlt := hmap.2.2 other hother entry List.mem_cons_self
    exact hleast other (hsplit ▸ List.mem_append_left _ hother) hfails' hlt
  · rintro ⟨hfails, before, behind, hsplit, hbefore⟩
    refine ⟨hsplit ▸ List.mem_append_right _ List.mem_cons_self, hfails, ?_⟩
    intro other hother hfails' hlt
    rw [IsMap, hsplit, List.pairwise_append, List.pairwise_cons] at hmap
    rw [hsplit, List.mem_append, List.mem_cons] at hother
    rcases hother with hother | rfl | hother
    · exact hbefore other hother hfails'
    · exact List.lt_irrefl _ hlt
    · exact List.lt_asymm hlt (hmap.2.1.1 other hother)

theorem grammars_eq_error_iff_firstFailure {c : Config} (hmap : c.IsMap) {e : CleanError} :
    c.grammars = .error e ↔ ∃ entry, c.FirstFailure entry ∧
      e = .config (c.source.getD ⟨fileName⟩) ⟨String.ofList entry.2⟩ := by
  simp only [grammars_eq_error_iff, Registry.insertAll_eq_error_iff, firstFailure_iff hmap]
  constructor
  · rintro ⟨cause, ⟨before, entry, behind, hsplit, hbefore, hentry⟩, rfl⟩
    obtain ⟨before, behind, hentries, rfl, hrest⟩ := List.map_eq_append_iff.1 hsplit
    obtain ⟨entry, behind, rfl, rfl, rfl⟩ := List.map_eq_cons_iff.1 hrest
    obtain ⟨hfails, rfl⟩ := Grammar.parseProfile_eq_error_iff.1 hentry
    refine ⟨entry, ⟨hfails, before, behind, hentries, ?_⟩, rfl⟩
    intro other hother
    have hasks := hbefore (asStrings other) (List.mem_map_of_mem hother)
    exact not_fails_iff.2 hasks
  · rintro ⟨entry, ⟨hfails, before, behind, hsplit, hbefore⟩, rfl⟩
    have hentry : Grammar.parseProfile (asStrings entry).2 = .error ⟨String.ofList entry.2⟩ :=
      Grammar.parseProfile_eq_error_iff.2 ⟨hfails, rfl⟩
    refine ⟨_, ⟨before.map asStrings, asStrings entry, behind.map asStrings, ?_, ?_, hentry⟩, rfl⟩
    · rw [hsplit, List.map_append, List.map_cons]
    · intro other hother
      obtain ⟨other, hmem, rfl⟩ := List.mem_map.1 hother
      exact not_fails_iff.1 (hbefore other hmem)

/-- Some entry is the first of those that name no profile. -/
theorem exists_firstFailure {c : Config} (hmap : c.IsMap) {entry : Text × Text}
    (hmem : entry ∈ c.extensions) (hfails : Fails entry) : ∃ first, c.FirstFailure first := by
  classical
  cases hfound : c.extensions.find? fun e => decide (Fails e) with
  | none =>
      have hnot := List.find?_eq_none.1 hfound entry hmem
      exact absurd hfails (by simpa using hnot)
  | some first =>
      obtain ⟨hfirst, before, behind, hsplit, hbefore⟩ := List.find?_eq_some_iff_append.1 hfound
      refine ⟨first, (firstFailure_iff hmap).2 ⟨of_decide_eq_true hfirst, before, behind, hsplit,
        fun other hother => ?_⟩⟩
      simpa using hbefore other hother

/-- In a map the greatest key that is the extension is the last one of them. -/
theorem find?_of_lastMatch {c : Config} (hmap : c.IsMap) {ext : String} {entry : Text × Text}
    (h : c.LastMatch ext entry) :
    (c.extensions.map asStrings).reverse.find?
        (fun e => canonicalExtension e.1 = canonicalExtension ext) =
      some (asStrings entry) := by
  obtain ⟨before, behind, hsplit⟩ := List.append_of_mem h.mem
  rw [IsMap, hsplit, List.pairwise_append, List.pairwise_cons] at hmap
  rw [List.find?_eq_some_iff_append]
  refine ⟨decide_eq_true h.same, (behind.map asStrings).reverse, (before.map asStrings).reverse,
    ?_, ?_⟩
  · rw [hsplit, List.map_append, List.map_cons, List.reverse_append, List.reverse_cons,
      List.append_assoc]
    rfl
  · intro e he
    obtain ⟨other, hother, rfl⟩ := List.mem_map.1 (List.mem_reverse.1 he)
    have hmem : other ∈ c.extensions :=
      hsplit ▸ List.mem_append_right _ (List.mem_cons_of_mem _ hother)
    have hne : canonicalExtension (asStrings other).1 ≠ canonicalExtension ext :=
      fun hsame => h.greatest other hmem hsame (hmap.2.1.1 other hother)
    simpa using hne

theorem find?_eq_none_of_forall_ne {c : Config} {ext : String}
    (h : ∀ entry ∈ c.extensions,
      canonicalExtension (String.ofList entry.1) ≠ canonicalExtension ext) :
    (c.extensions.map asStrings).reverse.find?
        (fun e => canonicalExtension e.1 = canonicalExtension ext) =
      none := by
  rw [List.find?_eq_none]
  intro e he
  obtain ⟨entry, hmem, rfl⟩ := List.mem_map.1 (List.mem_reverse.1 he)
  have hne : canonicalExtension (asStrings entry).1 ≠ canonicalExtension ext := h entry hmem
  simpa using hne

/-- **The profiles of settings are decided by their entries.** Settings fail exactly if some
entry names no profile, and then with the value of the entry with the least such key, as it is
written. Otherwise an extension has the profile that the entry with the greatest matching key
asks for, no profile if that is what it asks for, and where no key matches the profile of the
built-in table. So dots in front of an extension and the case of its letters do not count. -/
theorem grammars_resolve {c : Config} (hmap : c.IsMap) :
    (∀ e, c.grammars = .error e ↔ ∃ entry, c.FirstFailure entry ∧
      e = .config (c.source.getD ⟨fileName⟩) ⟨String.ofList entry.2⟩) ∧
    ((∃ e, c.grammars = .error e) ↔ ∃ entry ∈ c.extensions, Fails entry) ∧
    ∀ r, c.grammars = .ok r → ∀ ext : String,
      (∀ entry, c.LastMatch ext entry → Grammar.Asks entry.2 (r.grammarFor ext)) ∧
      ((∀ entry ∈ c.extensions,
          canonicalExtension (String.ofList entry.1) ≠ canonicalExtension ext) →
        r.grammarFor ext = builtinGrammar ext) ∧
      ∀ (dots : Text) (ext' : String), (∀ d ∈ dots, d = '.') → lowerAscii ext' = lowerAscii ext →
        r.grammarFor (String.ofList (dots ++ ext'.toList)) = r.grammarFor ext := by
  refine ⟨fun e => grammars_eq_error_iff_firstFailure hmap, ⟨?_, ?_⟩, ?_⟩
  · rintro ⟨e, he⟩
    obtain ⟨entry, hfirst, -⟩ := (grammars_eq_error_iff_firstFailure hmap).1 he
    exact ⟨entry, hfirst.mem, hfirst.fails⟩
  · rintro ⟨entry, hmem, hfails⟩
    obtain ⟨first, hfirst⟩ := exists_firstFailure hmap hmem hfails
    exact ⟨_, (grammars_eq_error_iff_firstFailure hmap).2 ⟨first, hfirst, rfl⟩⟩
  · intro r hr ext
    have hlookup := Registry.lookup_insertAll (grammars_eq_ok_iff.1 hr) (canonicalExtension ext)
    refine ⟨?_, ?_, ?_⟩
    · intro entry hlast
      obtain ⟨profile, hasks, hfound⟩ := hlookup.1 _ (find?_of_lastMatch hmap hlast)
      rw [Registry.grammarFor, hfound]
      exact Grammar.parseProfile_eq_ok_iff.1 hasks
    · intro hne
      rw [Registry.grammarFor, hlookup.2 (find?_eq_none_of_forall_ne hne)]
      rfl
    · intro dots ext' hdots hcase
      rw [Registry.grammarFor, Registry.grammarFor, builtinGrammar, builtinGrammar,
        canonicalExtension_congr hdots hcase]

/-- Settings with two spellings of one extension, of which the greater one asks for no profile. -/
def spelledTwice : Config where
  extensions := [(".PY".toList, " Hash\t".toList), ("py".toList, "NONE".toList)]

/-- The greater spelling counts, although the lesser one names a grammar. -/
theorem grammars_resolve_of_spelledTwice :
    spelledTwice.IsMap ∧
    ∃ r, spelledTwice.grammars = .ok r ∧ r.grammarFor "..Py" = none := by
  have hmap : spelledTwice.IsMap := by
    unfold IsMap
    decide +kernel
  have hgrammars : spelledTwice.grammars = .ok ⟨[("py", none), ("py", some .hash)]⟩ := by rfl
  have hlast : spelledTwice.LastMatch "..Py" ("py".toList, "NONE".toList) :=
    ⟨by decide, by decide +kernel, by decide +kernel⟩
  refine ⟨hmap, _, hgrammars, ?_⟩
  have hasks := ((grammars_resolve hmap).2.2 _ hgrammars "..Py").1 _ hlast
  exact hasks.unique (.passThrough (by decide +kernel))

end Config

end CleanDiff
