/-
  FileAccess/Proofs/Settings/Merging.lean
  =======================================
  **A document is merged over the standard settings.**

  The lines of some of the fields, in any order, are read back as what was written, with the
  standard settings for the other fields.  A further line among them is refused that gives a
  key again, gives another key, or gives a value that does not fit (`Refused`).  One value
  of another kind does fit: a table may choose the format of timestamps (`Value.Chooses`).
  The main statement is `ofDocument_linesMerged`.
-/
import FileAccess.Proofs.Settings.Drafts
import Mathlib.Data.List.Nodup

namespace FileAccess

namespace Settings

/-! ### Lines of fields -/

/-- The lines of some fields, in their order. -/
def lines (settings : Settings) (fields : List Field) : String :=
  String.join (fields.map (Field.line settings))

/-- The settings for some fields, and the standard ones for the others. -/
def merged (settings : Settings) (fields : List Field) : Settings where
  mtimeFormat := if .mtimeFormat ∈ fields then settings.mtimeFormat else standard.mtimeFormat
  stripNewlines :=
    if .stripNewlines ∈ fields then settings.stripNewlines else standard.stripNewlines
  mapThreshold := if .mapThreshold ∈ fields then settings.mapThreshold else standard.mapThreshold

/-- A table that chooses a format: its word is the only name, with nothing under it. -/
def Value.Chooses (value : Value) (format : Timestamp.Format) : Prop :=
  value.choice? = some (wordOfFormat format).toList

/-- The lines that do not go with those of the fields: with the key of one of them, with a
    key that is none, with a value of another kind that is not a choice of the format, or
    with a threshold out of range. -/
inductive Refused (fields : List Field) (entry : Entry) : Prop
  | again (hname : entry.name ∈ fields.map Field.key)
  | unknown (hname : ∀ field : Field, entry.name ≠ field.key)
  | otherKind (field : Field) (hname : entry.name = field.key)
      (hkind : entry.whole.kind ≠ field.kind)
      (hchoice : field = .mtimeFormat → ∀ format, ¬entry.whole.Chooses format)
  | outOfRange (n : Int) (hname : entry.name = mapThresholdKey) (hvalue : entry.whole = .integer n)
      (hrange : n < 0 ∨ 2 ^ 63 ≤ n)

/-- Lines of fields are merged over the standard settings, and what a further line among
    them does. -/
structure LinesMerged (settings : Settings) (fields : List Field) : Prop where
  merges : ofDocument (lines settings fields) = .ok (merged settings fields)
  refuses : ∀ (before after : List Field) (entry : Entry), before ++ after = fields →
    Refused fields entry →
    ofDocument (lines settings before ++ entry.line ++ lines settings after) =
      .error (.settings .malformed)
  chooses : ∀ (before after : List Field) (entry : Entry) (format : Timestamp.Format),
    before ++ after = fields → .mtimeFormat ∉ fields → entry.name = mtimeFormatKey →
    entry.whole.Chooses format →
    ofDocument (lines settings before ++ entry.line ++ lines settings after) =
      .ok { merged settings fields with mtimeFormat := format }

section Lines

variable {settings : Settings} {fields before after : List Field} {entry : Entry}

theorem toList_lines (settings : Settings) (fields : List Field) :
    (lines settings fields).toList =
      (fields.map (Field.entry settings)).flatMap Entry.spelling := by
  rw [lines, String.toList_join, List.flatMap_map, List.flatMap_map]
  simp only [Field.toList_line]

theorem toList_lines_insert (settings : Settings) (before after : List Field) (entry : Entry) :
    (lines settings before ++ entry.line ++ lines settings after).toList =
      (before.map (Field.entry settings) ++ entry :: after.map (Field.entry settings)).flatMap
        Entry.spelling := by
  rw [String.toList_append, String.toList_append, toList_lines, toList_lines, Entry.line,
    String.toList_ofList, List.flatMap_append, List.flatMap_cons, List.append_assoc]

theorem map_name_entry (settings : Settings) (fields : List Field) :
    (fields.map (Field.entry settings)).map Entry.name = fields.map Field.key := by
  rw [List.map_map]
  rfl

theorem key_notMem_iff {field : Field} : field.key ∉ fields.map Field.key ↔ field ∉ fields := by
  rw [List.mem_map_of_injective Field.key_injective]

theorem says_merged (h : settings.mapThreshold < 2 ^ 63) {field : Field} (hmem : field ∈ fields) :
    field.Says (merged settings fields) (field.value settings) := by
  cases field with
  | mtimeFormat => simp [Field.Says, Field.value, merged, hmem]
  | stripNewlines => simp [Field.Says, Field.value, merged, hmem]
  | mapThreshold =>
    refine ⟨by simp [Field.value, merged, hmem], ?_⟩
    rw [merged, if_pos hmem]
    exact h

theorem gives_merged (settings : Settings) {field : Field} (hnotMem : field ∉ fields) :
    Draft.Gives {} (merged settings fields) field := by
  cases field <;> simp [Draft.Gives, FormatDraft.format?, merged, hnotMem]

theorem unsaid_start (field : Field) : Draft.Unsaid {} field := by
  cases field <;> rfl

theorem reads_lines (h : settings.mapThreshold < 2 ^ 63) (hnodup : fields.Nodup) :
    Reads (fields.map (Field.entry settings)) {} (merged settings fields) := by
  refine ⟨?_, ?_, ?_⟩
  · rw [map_name_entry]
    exact hnodup.map Field.key_injective
  · intro entry hmem
    obtain ⟨field, hfield, rfl⟩ := List.mem_map.1 hmem
    exact ⟨field, rfl, unsaid_start field, says_merged h hfield⟩
  · intro field hnotMem
    rw [map_name_entry, key_notMem_iff] at hnotMem
    exact gives_merged settings hnotMem

theorem Reads.perm {entries entries' : List Entry} {draft : Draft}
    (hreads : Reads entries draft settings) (hperm : entries.Perm entries') :
    Reads entries' draft settings := by
  have hnames := hperm.map Entry.name
  refine ⟨hnames.nodup_iff.1 hreads.nodup, ?_, ?_⟩
  · intro entry hmem
    exact hreads.each entry (hperm.mem_iff.2 hmem)
  · intro field hnotMem
    exact hreads.rest field fun hmem => hnotMem (hnames.mem_iff.1 hmem)

/-- A line that chooses the format may be added to lines of other fields. -/
theorem reads_choice_lines (h : settings.mapThreshold < 2 ^ 63) (hnodup : fields.Nodup)
    (hnotMem : .mtimeFormat ∉ fields) (hname : entry.name = mtimeFormatKey)
    {format : Timestamp.Format} (hchooses : entry.whole.Chooses format) :
    Reads (entry :: fields.map (Field.entry settings)) {}
      { merged settings fields with mtimeFormat := format } := by
  have hreads := reads_lines h hnodup
  refine ⟨?_, ?_, ?_⟩
  · rw [List.map_cons, List.nodup_cons, map_name_entry, hname]
    exact ⟨key_notMem_iff.2 hnotMem, hnodup.map Field.key_injective⟩
  · intro entry' hmem
    rcases List.mem_cons.1 hmem with rfl | hmem'
    · exact ⟨.mtimeFormat, hname, rfl, .inr hchooses⟩
    · obtain ⟨field, hfield, rfl⟩ := List.mem_map.1 hmem'
      refine ⟨field, rfl, unsaid_start field, ?_⟩
      have hvalue := says_merged h hfield
      cases field with
      | mtimeFormat => exact absurd hfield hnotMem
      | stripNewlines => exact hvalue
      | mapThreshold => exact hvalue
  · intro field hnotMem'
    rw [List.map_cons, List.mem_cons, not_or, map_name_entry, hname, key_notMem_iff] at hnotMem'
    have hgives := gives_merged settings hnotMem'.2
    cases field with
    | mtimeFormat => exact absurd rfl hnotMem'.1
    | stripNewlines => exact hgives
    | mapThreshold => exact hgives

theorem Refused.not_reads (h : Refused fields entry) {settings settings' : Settings}
    (hfields : before ++ after = fields) :
    ¬Reads (before.map (Field.entry settings) ++ entry :: after.map (Field.entry settings)) {}
      settings' := by
  intro hreads
  obtain ⟨field, hname, -, hvalue⟩ := hreads.each entry (by simp)
  cases h with
  | again hmem =>
    have hnodup := hreads.nodup
    rw [List.map_append, List.map_cons, map_name_entry, map_name_entry, List.nodup_middle,
      List.nodup_cons, ← List.map_append, hfields] at hnodup
    exact hnodup.1 hmem
  | unknown hunknown => exact hunknown field hname
  | otherKind field' hname' hkind hchoice =>
    obtain rfl : field = field' := Field.key_injective (hname.symm.trans hname')
    cases field with
    | mtimeFormat =>
      rcases hvalue with htext | hchosen
      · rw [htext] at hkind
        exact hkind rfl
      · exact hchoice rfl _ hchosen
    | stripNewlines =>
      rw [hvalue] at hkind
      exact hkind rfl
    | mapThreshold =>
      rw [hvalue.1] at hkind
      exact hkind rfl
  | outOfRange n hname' hinteger hrange =>
    obtain rfl : field = .mapThreshold := Field.key_injective (hname.symm.trans hname')
    obtain ⟨heq, hlt⟩ := hvalue
    rw [hinteger] at heq
    cases heq
    omega

theorem ofDocument_eq_error {document : String} (h : read? document = none) :
    ofDocument document = .error (.settings .malformed) := by
  rw [ofDocument, h]

theorem ofDocument_eq_ok {document : String} (h : read? document = some settings) :
    ofDocument document = .ok settings := by
  rw [ofDocument, h]

/-- **Lines of fields are merged over the standard settings**, and no line goes with them
    that gives a key again, gives another key, or gives a value that does not fit. -/
theorem ofDocument_linesMerged (hthreshold : settings.mapThreshold < 2 ^ 63)
    (hnodup : fields.Nodup) : LinesMerged settings fields := by
  refine ⟨?_, ?_, ?_⟩
  · apply ofDocument_eq_ok
    rw [read?_eq_some_iff (toList_lines settings fields)]
    exact reads_lines hthreshold hnodup
  · intro before after entry hfields hrefused
    apply ofDocument_eq_error
    rw [Option.eq_none_iff_forall_ne_some]
    intro settings' hread
    rw [read?_eq_some_iff (toList_lines_insert settings before after entry)] at hread
    exact hrefused.not_reads hfields hread
  · rintro before after entry format rfl hnotMem hname hchooses
    apply ofDocument_eq_ok
    rw [read?_eq_some_iff (toList_lines_insert settings before after entry)]
    have hreads := reads_choice_lines hthreshold hnodup hnotMem hname hchooses
    rw [List.map_append] at hreads
    exact hreads.perm List.perm_middle.symm

theorem ofDocument_linesMerged_largestThreshold :
    (2 ^ 63 - 1 : Nat) < 2 ^ 63 ∧ [Field.mapThreshold, .mtimeFormat].Nodup ∧
      LinesMerged ⟨.integer, false, 2 ^ 63 - 1⟩ [.mapThreshold, .mtimeFormat] :=
  ⟨by decide, by decide, ofDocument_linesMerged (by decide) (by decide)⟩

/-- A value of another kind than the format's is read all the same, where it is a table that
    chooses one. -/
theorem ofDocument_tableOfFormat :
    let entry : Entry := ⟨mtimeFormatKey, [], .table [("integer".toList, .table [])]⟩
    entry.line = "mtime_format = \x7binteger = \x7b\x7d\x7d\n" ∧
      entry.whole.kind ≠ Field.mtimeFormat.kind ∧
      ofDocument entry.line = .ok ⟨.integer, true, Store.defaultThreshold⟩ := by
  intro entry
  have hread : read? entry.line = some ⟨.integer, true, Store.defaultThreshold⟩ := by
    decide +kernel
  exact ⟨by decide +kernel, by decide, ofDocument_eq_ok hread⟩

end Lines

end Settings

end FileAccess
