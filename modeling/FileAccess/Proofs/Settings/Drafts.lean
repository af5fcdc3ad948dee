/-
  FileAccess/Proofs/Settings/Drafts.lean
  ======================================
  **What a document of lines says.**

  Before every header a line that can be followed does one thing: it gives a setting that
  had not been given, by a value that fits it (`Draft.Takes`, `Draft.take_eq_some_iff`), and
  leaves the others as they are (`Draft.Puts`).  By induction a document of lines gives
  settings exactly where no name stands twice and each line says of the settings what they
  are, those it does not name being the standard ones (`Reads`, `read?_eq_some_iff`).
-/
import FileAccess.Proofs.Settings.Reading
import Mathlib.Algebra.Group.Int.Defs
import Mathlib.Algebra.Group.Nat.Defs

namespace FileAccess

namespace Settings

/-! ### What a value says of a setting -/

theorem formatOfWord?_eq_some_iff {word : List Char} {format : Timestamp.Format} :
    formatOfWord? word = some format ↔ word = (wordOfFormat format).toList := by
  have hne : "integer".toList ≠ "fractional".toList := by decide
  rw [formatOfWord?]
  cases format with
  | integer =>
    show _ ↔ word = "integer".toList
    split
    · simp_all
    · split <;> simp_all
  | fractional =>
    show _ ↔ word = "fractional".toList
    split
    · simp_all
    · split <;> simp_all

theorem wordOfFormat_inj {format format' : Timestamp.Format} :
    (wordOfFormat format).toList = (wordOfFormat format').toList ↔ format = format' := by
  rw [← formatOfWord?_eq_some_iff, formatOfWord?_eq_some_iff.2 rfl, Option.some_inj]

/-- The settings have what a value says for a field. -/
def Field.Says (settings : Settings) (value : Value) : Field → Prop
  | mtimeFormat =>
    value = .text (wordOfFormat settings.mtimeFormat).toList ∨
      value.choice? = some (wordOfFormat settings.mtimeFormat).toList
  | stripNewlines => value = .flag settings.stripNewlines
  | mapThreshold => value = .integer settings.mapThreshold ∧ settings.mapThreshold < 2 ^ 63

/-- A line says this with a value. -/
def Value.Means (value : Value) : Literal → Prop
  | .text chars => value = .text chars
  | .flag given => value = .flag given
  | .number n => value = .integer n ∧ -2 ^ 63 ≤ n ∧ n < 2 ^ 63
  | .empty => value.isEmpty = true
  | .choice name => value.choice? = some name

theorem Value.asLiteral?_eq_some_iff {value : Value} {literal : Literal} :
    value.asLiteral? = some literal ↔ value.Means literal := by
  cases value with
  | text chars => cases literal <;> simp [asLiteral?, Means, isEmpty, choice?]
  | flag given => cases literal <;> simp [asLiteral?, Means, isEmpty, choice?]
  | integer m =>
    have hrange : inRange? m = if -2 ^ 63 ≤ m ∧ m < 2 ^ 63 then some m else none := rfl
    rw [asLiteral?, hrange]
    cases literal with
    | number n =>
      simp only [Means, integer.injEq, Option.map_eq_some_iff]
      split <;> grind
    | _ => simp [Means, isEmpty, choice?]
  | list items =>
    cases items <;> cases literal <;> simp [asLiteral?, Means, isEmpty, choice?]
  | table entries =>
    cases entries <;> cases literal <;> simp [asLiteral?, Means, isEmpty, choice?]
  | _ => cases literal <;> simp [asLiteral?, Means, isEmpty, choice?]

/-! ### Single lines -/

namespace Draft

/-- What a line makes of a draft, if it can be followed. -/
def take (draft : Draft) (entry : Entry) : Option Draft :=
  entry.statement?.bind draft.follow

def Gives (draft : Draft) (settings : Settings) : Field → Prop
  | .mtimeFormat => draft.mtimeFormat.format? = some settings.mtimeFormat
  | .stripNewlines => draft.stripNewlines.getD standard.stripNewlines = settings.stripNewlines
  | .mapThreshold => draft.mapThreshold.getD standard.mapThreshold = settings.mapThreshold

def Unsaid (draft : Draft) : Field → Prop
  | .mtimeFormat => draft.mtimeFormat = .unsaid
  | .stripNewlines => draft.stripNewlines = none
  | .mapThreshold => draft.mapThreshold = none

/-- What a line can do before every header: it gives a field that nothing was said of. -/
inductive Takes (draft : Draft) (entry : Entry) : Draft → Prop
  | mtimeFormat {format : Timestamp.Format} (hname : entry.name = mtimeFormatKey)
      (hunsaid : draft.mtimeFormat = .unsaid)
      (hvalue : entry.whole = .text (wordOfFormat format).toList ∨
        entry.whole.choice? = some (wordOfFormat format).toList) :
      Takes draft entry { draft with mtimeFormat := .given format }
  | stripNewlines {strip : Bool} (hname : entry.name = stripNewlinesKey)
      (hunsaid : draft.stripNewlines = none) (hvalue : entry.whole = .flag strip) :
      Takes draft entry { draft with stripNewlines := some strip }
  | mapThreshold {threshold : Nat} (hname : entry.name = mapThresholdKey)
      (hunsaid : draft.mapThreshold = none) (hvalue : entry.whole = .integer threshold)
      (hlt : threshold < 2 ^ 63) :
      Takes draft entry { draft with mapThreshold := some threshold }

section Take

variable {draft draft' : Draft} {entry : Entry}

theorem key_ne : mtimeFormatKey ≠ stripNewlinesKey ∧ mtimeFormatKey ≠ mapThresholdKey ∧
    stripNewlinesKey ≠ mapThresholdKey := by
  decide +kernel

theorem withFormat_give_eq_some_iff {word : List Char} :
    draft.withFormat (draft.mtimeFormat.give word) = some draft' ↔
      draft.mtimeFormat = .unsaid ∧ ∃ format, word = (wordOfFormat format).toList ∧
        { draft with mtimeFormat := .given format } = draft' := by
  rw [withFormat, Option.map_eq_some_iff]
  cases draft.mtimeFormat with
  | unsaid => simp [FormatDraft.give, formatOfWord?_eq_some_iff]
  | _ => simp [FormatDraft.give]

theorem take_simple {name : List Char} {value : Value} (h : draft.place = .top) :
    draft.take ⟨name, [], value⟩ = value.asLiteral?.bind (draft.assignSetting name) := by
  rw [take, Entry.statement?, Option.bind_map]
  congr 1
  funext literal
  show draft.assign (.simple name) literal = _
  simp only [assign, h]

theorem take_dotted {name inner : List Char} {value : Value} (h : draft.place = .top) :
    draft.take ⟨name, [inner], value⟩ = value.asLiteral?.bind fun literal =>
      if name = mtimeFormatKey ∧ literal = .empty then
        draft.withFormat (draft.mtimeFormat.give inner)
      else none := by
  rw [take, Entry.statement?, Option.bind_map]
  congr 1
  funext literal
  show draft.assign (.dotted name inner) literal = _
  simp only [assign, h]

theorem assignSetting_choice (name inner : List Char) :
    draft.assignSetting name (.choice inner) =
      if name = mtimeFormatKey then draft.withFormat (draft.mtimeFormat.give inner) else none := by
  rw [assignSetting]
  split
  · rfl
  · cases draft.stripNewlines <;> cases draft.mapThreshold <;> simp

/-- A line with a dotted key does what the line would do that writes the tables out. -/
theorem take_whole (h : draft.place = .top) :
    draft.take entry = draft.take ⟨entry.name, [], entry.whole⟩ := by
  obtain ⟨name, path, value⟩ := entry
  cases path with
  | nil => rfl
  | cons inner path =>
    rw [take_simple h]
    cases path with
    | nil =>
      have hliteral : (Value.table [(inner, value)]).asLiteral? =
          if value.isEmpty then some (.choice inner) else none := by
        rw [Value.asLiteral?, Value.choice?]
        · cases value.isEmpty <;> rfl
        all_goals simp
      show _ = (Value.table [(inner, value)]).asLiteral?.bind _
      rw [take_dotted h, hliteral]
      by_cases hempty : value.isEmpty
      · have hvalue : value.asLiteral? = some .empty := Value.asLiteral?_eq_some_iff.2 hempty
        rw [if_pos hempty, hvalue, Option.bind_some, Option.bind_some, assignSetting_choice]
        simp
      · rw [if_neg hempty, Option.bind_none]
        cases hvalue : value.asLiteral? with
        | none => rfl
        | some literal =>
          have hne : literal ≠ .empty := by
            rintro rfl
            exact hempty (Value.asLiteral?_eq_some_iff.1 hvalue)
          simp [hne]
    | cons next path => rfl

/-- **A line can be followed where it gives a field that nothing was said of.** -/
theorem take_eq_some_iff (h : draft.place = .top) :
    draft.take entry = some draft' ↔ Takes draft entry draft' := by
  obtain ⟨hflag, hnumber, hnumber'⟩ := key_ne
  rw [take_whole h, take_simple h, Option.bind_eq_some_iff]
  simp only [Value.asLiteral?_eq_some_iff]
  constructor
  · rintro ⟨literal, hmeans, hassign⟩
    unfold assignSetting at hassign
    split at hassign
    · rename_i hname
      cases literal with
      | text word =>
        obtain ⟨hunsaid, format, rfl, rfl⟩ := withFormat_give_eq_some_iff.1 hassign
        exact .mtimeFormat hname hunsaid (.inl hmeans)
      | choice word =>
        obtain ⟨hunsaid, format, rfl, rfl⟩ := withFormat_give_eq_some_iff.1 hassign
        exact .mtimeFormat hname hunsaid (.inr hmeans)
      | _ => cases hassign
    split at hassign
    · rename_i hname
      split at hassign
      · rename_i hunsaid
        cases hassign
        exact .stripNewlines hname hunsaid hmeans
      · cases hassign
    split at hassign
    · rename_i hname
      split at hassign
      · rename_i n hunsaid
        split at hassign
        · rename_i hnonneg
          obtain ⟨threshold, rfl⟩ := Int.eq_ofNat_of_zero_le hnonneg
          obtain ⟨hvalue, _, hlt⟩ := hmeans
          cases hassign
          exact .mapThreshold hname hunsaid hvalue (by omega)
        · cases hassign
      · cases hassign
    · cases hassign
  · intro htakes
    cases htakes with
    | @mtimeFormat format hname hunsaid hvalue =>
      have hgive := withFormat_give_eq_some_iff.2 ⟨hunsaid, format, rfl, rfl⟩
      rcases hvalue with htext | hchoice
      · refine ⟨.text (wordOfFormat format).toList, htext, ?_⟩
        simp [assignSetting, hname, hgive]
      · refine ⟨.choice (wordOfFormat format).toList, hchoice, ?_⟩
        simp [assignSetting, hname, hgive]
    | @stripNewlines strip hname hunsaid hvalue =>
      refine ⟨.flag strip, hvalue, ?_⟩
      simp [assignSetting, hname, hunsaid, hflag.symm]
    | @mapThreshold threshold hname hunsaid hvalue hlt =>
      refine ⟨.number threshold, ⟨hvalue, by omega, by omega⟩, ?_⟩
      simp [assignSetting, hname, hunsaid, hnumber.symm, hnumber'.symm]

/-- What a line changes of a draft: it gives one field, and the others are as they were. -/
structure Puts (draft : Draft) (entry : Entry) (field : Field) (draft' : Draft) : Prop where
  name : entry.name = field.key
  place : draft'.place = draft.place
  unsaid : draft.Unsaid field
  said : ¬draft'.Unsaid field
  gives : ∀ settings, draft'.Gives settings field ↔ field.Says settings entry.whole
  others : ∀ other, other ≠ field → (draft'.Unsaid other ↔ draft.Unsaid other) ∧
    ∀ settings, draft'.Gives settings other ↔ draft.Gives settings other

theorem Takes.exists_puts (h : Takes draft entry draft') :
    ∃ field, Puts draft entry field draft' := by
  cases h with
  | @mtimeFormat format hname hunsaid hvalue =>
    refine ⟨.mtimeFormat, hname, rfl, hunsaid, by simp [Unsaid], ?_, ?_⟩
    · intro settings
      show some format = some settings.mtimeFormat ↔ _
      rw [Option.some_inj]
      constructor
      · rintro rfl
        exact hvalue
      · intro hsaid
        rcases hvalue with htext | hchoice
        · simpa [Field.Says, htext, Value.choice?, wordOfFormat_inj] using hsaid
        · have htext : ∀ chars, entry.whole ≠ .text chars := by
            intro chars heq
            simp [heq, Value.choice?] at hchoice
          simpa [Field.Says, htext, hchoice, wordOfFormat_inj] using hsaid
    · intro other hother
      cases other with
      | mtimeFormat => exact absurd rfl hother
      | _ => exact ⟨Iff.rfl, fun _ => Iff.rfl⟩
  | @stripNewlines strip hname hunsaid hvalue =>
    refine ⟨.stripNewlines, hname, rfl, hunsaid, by simp [Unsaid], ?_, ?_⟩
    · intro settings
      simp [Gives, Field.Says, hvalue]
    · intro other hother
      cases other with
      | stripNewlines => exact absurd rfl hother
      | _ => exact ⟨Iff.rfl, fun _ => Iff.rfl⟩
  | @mapThreshold threshold hname hunsaid hvalue hlt =>
    refine ⟨.mapThreshold, hname, rfl, hunsaid, by simp [Unsaid], ?_, ?_⟩
    · intro settings
      simp only [Gives, Field.Says, hvalue, Option.getD_some, Value.integer.injEq]
      omega
    · intro other hother
      cases other with
      | mapThreshold => exact absurd rfl hother
      | _ => exact ⟨Iff.rfl, fun _ => Iff.rfl⟩

/-- Any field that nothing was said of can be given. -/
theorem exists_takes {field : Field} {settings : Settings} (hname : entry.name = field.key)
    (hunsaid : draft.Unsaid field) (hvalue : field.Says settings entry.whole) :
    ∃ draft', Takes draft entry draft' := by
  cases field with
  | mtimeFormat => exact ⟨_, .mtimeFormat hname hunsaid hvalue⟩
  | stripNewlines => exact ⟨_, .stripNewlines hname hunsaid hvalue⟩
  | mapThreshold => exact ⟨_, .mapThreshold hname hunsaid hvalue.1 hvalue.2⟩

theorem complete?_eq_some_iff {settings : Settings} :
    draft.complete? = some settings ↔ ∀ field, draft.Gives settings field := by
  obtain ⟨format, strip, threshold⟩ := settings
  rw [complete?, Option.map_eq_some_iff]
  constructor
  · rintro ⟨format', hformat, heq⟩ field
    obtain ⟨rfl, rfl, rfl⟩ := Settings.mk.inj heq
    cases field with
    | mtimeFormat => exact hformat
    | _ => rfl
  · intro hgives
    refine ⟨format, hgives .mtimeFormat, ?_⟩
    congr 1
    · exact hgives .stripNewlines
    · exact hgives .mapThreshold

end Take

end Draft

/-! ### Documents -/

theorem Field.key_injective : Function.Injective Field.key := by
  obtain ⟨hflag, hnumber, hnumber'⟩ := Draft.key_ne
  intro field field' heq
  cases field <;> cases field' <;> simp_all [key, Ne.symm]

/-- What a document of lines gives: no name stands twice, each line says of the settings what
    they are, and the fields it does not name are those of the draft it is read into. -/
structure Reads (entries : List Entry) (draft : Draft) (settings : Settings) : Prop where
  nodup : (entries.map Entry.name).Nodup
  each : ∀ entry ∈ entries, ∃ field : Field,
    entry.name = field.key ∧ draft.Unsaid field ∧ field.Says settings entry.whole
  rest : ∀ field : Field, field.key ∉ entries.map Entry.name → draft.Gives settings field

theorem Reads.of_cons {draft draft' : Draft} {entry : Entry} {field : Field}
    (h : draft.Puts entry field draft') {entries : List Entry} {settings : Settings}
    (hreads : Reads (entry :: entries) draft settings) : Reads entries draft' settings := by
  have hnodup := hreads.nodup
  rw [List.map_cons, List.nodup_cons] at hnodup
  refine ⟨hnodup.2, ?_, ?_⟩
  · intro entry' hmem
    obtain ⟨field', hname, hunsaid, hvalue⟩ := hreads.each entry' (List.mem_cons_of_mem _ hmem)
    have hother : field' ≠ field := by
      rintro rfl
      exact hnodup.1 (List.mem_map.2 ⟨entry', hmem, hname.trans h.name.symm⟩)
    exact ⟨field', hname, (h.others field' hother).1.2 hunsaid, hvalue⟩
  · intro field' hnotMem
    by_cases hsame : field' = field
    · obtain ⟨field'', hname, -, hvalue⟩ := hreads.each entry (List.mem_cons_self ..)
      obtain rfl : field'' = field := Field.key_injective (hname.symm.trans h.name)
      rw [hsame]
      exact (h.gives settings).2 hvalue
    · have hne : field'.key ≠ entry.name := by
        rw [h.name]
        exact Field.key_injective.ne hsame
      apply ((h.others field' hsame).2 settings).2
      exact hreads.rest field' (by simp [hne, hnotMem])

theorem Reads.cons {draft draft' : Draft} {entry : Entry} {field : Field}
    (h : draft.Puts entry field draft') {entries : List Entry} {settings : Settings}
    (hreads : Reads entries draft' settings) : Reads (entry :: entries) draft settings := by
  -- the field is said now, so that no later line can have its name
  have hother : ∀ field', draft'.Unsaid field' → field' ≠ field := by
    rintro field' hunsaid rfl
    exact h.said hunsaid
  have hnotMem : field.key ∉ entries.map Entry.name := by
    intro hmem
    obtain ⟨entry', hmem', hname'⟩ := List.mem_map.1 hmem
    obtain ⟨field', hname, hunsaid, -⟩ := hreads.each entry' hmem'
    exact hother field' hunsaid (Field.key_injective (hname.symm.trans hname'))
  refine ⟨?_, ?_, ?_⟩
  · rw [List.map_cons, List.nodup_cons, h.name]
    exact ⟨hnotMem, hreads.nodup⟩
  · intro entry' hmem
    rcases List.mem_cons.1 hmem with rfl | hmem'
    · exact ⟨field, h.name, h.unsaid, (h.gives settings).1 (hreads.rest field hnotMem)⟩
    · obtain ⟨field', hname, hunsaid, hvalue⟩ := hreads.each entry' hmem'
      exact ⟨field', hname, (h.others field' (hother field' hunsaid)).1.1 hunsaid, hvalue⟩
  · intro field' hnotMem'
    rw [List.map_cons, List.mem_cons, not_or, h.name] at hnotMem'
    have hsame : field' ≠ field := fun heq => hnotMem'.1 (by rw [heq])
    exact ((h.others field' hsame).2 settings).1 (hreads.rest field' hnotMem'.2)

/-- Line by line a document gives settings, from any draft before every header. -/
theorem foldlM_take_eq_some_iff (entries : List Entry) (settings : Settings) :
    ∀ draft : Draft, draft.place = .top →
      ((entries.foldlM Draft.take draft).bind Draft.complete? = some settings ↔
        Reads entries draft settings) := by
  induction entries with
  | nil =>
    intro draft _
    show draft.complete? = some settings ↔ _
    rw [Draft.complete?_eq_some_iff]
    constructor
    · intro hgives
      exact ⟨List.nodup_nil, by simp, fun field _ => hgives field⟩
    · intro hreads field
      exact hreads.rest field (by simp)
  | cons entry entries ih =>
    intro draft htop
    rw [List.foldlM_cons]
    cases htake : draft.take entry with
    | none =>
      refine iff_of_false (by simp) ?_
      intro hreads
      obtain ⟨field, hname, hunsaid, hvalue⟩ := hreads.each entry (List.mem_cons_self ..)
      obtain ⟨draft', htakes⟩ := Draft.exists_takes hname hunsaid hvalue
      rw [(Draft.take_eq_some_iff htop).2 htakes] at htake
      cases htake
    | some draft' =>
      obtain ⟨field, hputs⟩ := ((Draft.take_eq_some_iff htop).1 htake).exists_puts
      have hrest := ih draft' (hputs.place.trans htop)
      exact hrest.trans ⟨Reads.cons hputs, Reads.of_cons hputs⟩

theorem bind_foldlM_follow (entries : List Entry) (draft : Draft) :
    (entries.mapM Entry.statement?).bind (fun statements => statements.foldlM Draft.follow draft) =
      entries.foldlM Draft.take draft := by
  induction entries generalizing draft with
  | nil => rfl
  | cons entry entries ih =>
    rw [List.foldlM_cons, List.mapM_cons, Draft.take]
    cases entry.statement? with
    | none => rfl
    | some statement =>
      simp only [Option.bind_eq_bind, Option.bind_some, ← ih]
      cases entries.mapM Entry.statement? with
      | none => cases draft.follow statement <;> rfl
      | some statements => rfl

/-- **A document of lines is read as the settings it says, and only then.** -/
theorem read?_eq_some_iff {document : String} {entries : List Entry} {settings : Settings}
    (h : document.toList = entries.flatMap Entry.spelling) :
    read? document = some settings ↔ Reads entries {} settings := by
  rw [read?_document h, ← foldlM_take_eq_some_iff entries settings {} rfl, ← bind_foldlM_follow,
    Option.bind_assoc]
  rfl

end Settings

end FileAccess
