import CleanDiff.Proofs.JsonText
import CleanDiff.Report.Render

/-!
# Reports survive their text

The text that a report is written as, read as JSON and then as a report, is the
report again (`Report.parse?_prettyJson`). The two halves do not meet: one is
that the value written for a report is one that the reader of JSON takes as it
is (`Report.plain_toJson`), the other that the reader of records undoes the
writer of records (`Report.ofJson?_toJson`). The keys of a record are strings,
so both look members up by their names and not by the characters of these
(`fields?_ofMembers`, `get_ofMembers`).

What a word of 64 bits can count bounds the numbers of a report: the reversions
of a file, the entries, and with them every count of the summary.
-/

namespace CleanDiff

open Json

/-! ### Members by name -/

theorem lookup_toList (members : List (String × Json)) (name : String) :
    (members.map fun m => (m.1.toList, m.2)).lookup name.toList = members.lookup name := by
  induction members with
  | nil => rfl
  | cons m members ih =>
    have hkey : (name.toList == m.1.toList) = (name == m.1) := by
      rw [Bool.eq_iff_iff, beq_iff_eq, beq_iff_eq, String.toList_inj]
    rw [List.map_cons, List.lookup_cons, List.lookup_cons, hkey, ih]

theorem get_ofMembers (members : List (String × Json)) (key : String) :
    (ofMembers members).get key.toList = (members.reverse.lookup key).getD .null := by
  rw [ofMembers, Json.get, ← List.map_reverse, lookup_toList]

theorem fields?_ofMembers (members : List (String × Json)) (names : List String) :
    (ofMembers members).fields? names = names.mapM fun name => members.reverse.lookup name := by
  rw [ofMembers, fields?, ← List.map_reverse]
  exact congrArg (names.mapM ·) (funext (lookup_toList members.reverse))

/-! ### What is read -/

theorem FileFailure.ofJson?_toJson (f : FileFailure) : ofJson? f.toJson = some f := by
  obtain ⟨⟨path⟩, error⟩ := f
  simp [ofJson?, toJson, fields?_ofMembers, List.lookup_cons, ofString, str?]

theorem SkipReason.ofJson?_name (reason : SkipReason) :
    ofJson? (ofString reason.name) = some reason := by
  cases reason <;> rfl

theorem FileOutcome.ofJson?_ofMembers (members : List (String × Json)) (status : Text)
    (h : (ofMembers members).get "status".toList = .str status) :
    ofJson? (ofMembers members) = ofFields? status (ofMembers members) := by
  have hstatus : (Json.obj (members.map fun m => (m.1.toList, m.2))).get "status".toList
      = .str status := h
  rw [ofMembers, ofJson?, hstatus]
  rfl

theorem FileOutcome.ofJson?_toJson {o : FileOutcome} (h : o.reversions < wordSize) :
    ofJson? o.toJson = some o := by
  cases o with
  | processed path rewritten reversions =>
    have hword : reversions < Nat.pow 2 64 := h
    rw [toJson, ofJson?_ofMembers _ "processed".toList (by rw [get_ofMembers]; rfl)]
    simp only [ofFields?, if_true, fields?_ofMembers]
    simp [List.lookup_cons, str?, bool?, word64?, hword]
  | skipped path reason =>
    rw [toJson, ofJson?_ofMembers _ "skipped".toList (by rw [get_ofMembers]; rfl)]
    rw [ofFields?, if_neg (by decide), if_pos rfl, fields?_ofMembers]
    simp [List.lookup_cons, str?, SkipReason.ofJson?_name]

theorem mapM_map_of_forall {α β : Type} {write : α → β} {read : β → Option α} {as : List α}
    (h : ∀ a ∈ as, read (write a) = some a) : (as.map write).mapM read = some as := by
  induction as with
  | nil => rfl
  | cons a as ih =>
    have hrest := ih fun b hb => h b (List.mem_cons_of_mem a hb)
    rw [List.map_cons, List.mapM_cons, h a List.mem_cons_self, hrest]
    rfl

theorem Report.ofJson?_toJson {r : Report} (h : ∀ o ∈ r.files, o.reversions < wordSize) :
    ofJson? r.toJson = some r := by
  have hfiles : (r.files.map FileOutcome.toJson).mapM FileOutcome.ofJson? = some r.files :=
    mapM_map_of_forall fun o ho => FileOutcome.ofJson?_toJson (h o ho)
  have hfailures : (r.failures.map FileFailure.toJson).mapM FileFailure.ofJson?
      = some r.failures :=
    mapM_map_of_forall fun f _ => FileFailure.ofJson?_toJson f
  rw [ofJson?, toJson, fields?_ofMembers]
  simp [List.lookup_cons, bool?, arr?, hfiles, hfailures]

/-! ### What is written -/

theorem plain_ofMembers {depth : Nat} {members : List (String × Json)}
    (h : ∀ m ∈ members, Plain depth m.2) : Plain (depth + 1) (ofMembers members) := by
  refine .obj fun m hm => ?_
  obtain ⟨member, hmember, rfl⟩ := List.mem_map.1 hm
  exact h member hmember

theorem plain_word (depth : Nat) {n : Nat} (h : n < wordSize) : Plain depth (.nat n) :=
  .nat depth (overflows_digits_of_lt h)

theorem FileOutcome.plain_toJson (depth : Nat) {o : FileOutcome} (h : o.reversions < wordSize) :
    Plain (depth + 1) o.toJson := by
  cases o with
  | processed path rewritten reversions =>
    have hword : Plain depth (.nat reversions) := plain_word depth h
    refine plain_ofMembers ?_
    simp [hword, Plain.str, Plain.bool, ofString]
  | skipped path reason =>
    refine plain_ofMembers ?_
    simp [Plain.str, ofString]

theorem FileFailure.plain_toJson (depth : Nat) (f : FileFailure) : Plain (depth + 1) f.toJson := by
  refine plain_ofMembers ?_
  simp [Plain.str, ofString]

/-- Every count of a report with fewer entries than a word has values is such a
word. -/
theorem Report.plain_summary (depth : Nat) {r : Report}
    (h : r.files.length + r.failures.length < wordSize) :
    Plain (depth + 1) r.summary.toJson := by
  have hrewritten : r.summary.rewritten ≤ r.files.length := List.countP_le_length
  have hskipped : r.summary.skipped ≤ r.files.length := List.countP_le_length
  have hreversions : r.summary.reversions < wordSize := Nat.mod_lt _ (by decide)
  have hfiles : r.summary.files < wordSize := h
  have hfailed : r.summary.failed < wordSize := Nat.lt_of_le_of_lt (Nat.le_add_left _ _) h
  refine plain_ofMembers ?_
  simp only [List.forall_mem_cons]
  exact ⟨plain_word depth hfailed, plain_word depth hfiles, plain_word depth hreversions,
    plain_word depth (by omega), plain_word depth (by omega), by simp⟩

theorem Report.plain_toJson (depth : Nat) {r : Report}
    (hreversions : ∀ o ∈ r.files, o.reversions < wordSize)
    (hentries : r.files.length + r.failures.length < wordSize) :
    Plain (depth + 3) r.toJson := by
  have hfailures : Plain (depth + 2) (.arr (r.failures.map FileFailure.toJson)) := by
    refine .arr fun v hv => ?_
    obtain ⟨f, -, rfl⟩ := List.mem_map.1 hv
    exact f.plain_toJson depth
  have hfiles : Plain (depth + 2) (.arr (r.files.map FileOutcome.toJson)) := by
    refine .arr fun v hv => ?_
    obtain ⟨o, ho, rfl⟩ := List.mem_map.1 hv
    exact FileOutcome.plain_toJson depth (hreversions o ho)
  have hsummary : Plain (depth + 2) r.summary.toJson := plain_summary (depth + 1) hentries
  refine plain_ofMembers ?_
  simp [hfailures, hfiles, hsummary, Plain.bool]

theorem Summary.toJson_injective : Function.Injective Summary.toJson := by
  intro ⟨_, _, _, _, _⟩ ⟨_, _, _, _, _⟩ h
  simp [toJson, ofMembers] at h
  simp [h]

/-- **Reports survive JSON**, whatever characters their paths and errors hold:
the text of a report is JSON, it is read as this report, and its summary is the
summary of this report and of no other. Reversions are words of 64 bits, and so
is the number of the entries. -/
theorem Report.parse?_prettyJson (r : Report)
    (hreversions : ∀ o ∈ r.files, o.reversions < wordSize)
    (hentries : r.files.length + r.failures.length < wordSize) :
    ∃ v, Json.parse? r.prettyJson = some v ∧ ofJson? v = some r ∧
      ∀ s : Summary, v.get "summary".toList = s.toJson ↔ s = r.summary := by
  have hparse : Json.parse? r.prettyJson = some r.toJson :=
    parse?_pretty (plain_toJson 124 hreversions hentries)
  have hsummary : r.toJson.get "summary".toList = r.summary.toJson := by
    rw [toJson, get_ofMembers]
    rfl
  refine ⟨r.toJson, hparse, ofJson?_toJson hreversions, fun s => ?_⟩
  rw [hsummary, eq_comm]
  exact Summary.toJson_injective.eq_iff

/-- A report whose texts need every kind of escape, and whose reversions add up
to more than a word. -/
def Report.awkward : Report where
  dryRun := true
  files :=
    [.processed ⟨"say \"hi\"\\n.rs".toList⟩ true 18446744073709551615,
      .processed ⟨"\x00\x1f\x7f/é€😀".toList⟩ false 1, .skipped ⟨[]⟩ .undecodable]
  failures := [⟨⟨"\t".toList⟩, "line 1\r\n\x08\x0c"⟩]

theorem Report.parse?_prettyJson_awkward :
    (∀ o ∈ awkward.files, o.reversions < wordSize) ∧
      awkward.files.length + awkward.failures.length < wordSize ∧
      ∃ v, Json.parse? awkward.prettyJson = some v ∧ ofJson? v = some awkward ∧
        ∀ s : Summary, v.get "summary".toList = s.toJson ↔ s = awkward.summary := by
  have hreversions : ∀ o ∈ awkward.files, o.reversions < wordSize := by
    simp [awkward, FileOutcome.reversions, wordSize]
  have hentries : awkward.files.length + awkward.failures.length < wordSize := by
    simp [awkward, wordSize]
  exact ⟨hreversions, hentries, parse?_prettyJson awkward hreversions hentries⟩

end CleanDiff
