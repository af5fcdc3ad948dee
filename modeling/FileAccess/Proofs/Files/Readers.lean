/-
  FileAccess/Proofs/Files/Readers.lean
  ====================================
  **Reading whole and reading line by line give the same bytes.**

  The two can be compared where a mapping holds just what a reading would deliver (`Steady`):
  that of a regular file does, and a directory can be neither read nor mapped.  Such a path,
  read whole and opened for its lines under one policy, ends in one of five ways (`BothEnd`): with a content and a source at its start, with nothing and the
  empty sequence, with neither, with one error of the open, or with two errors of what came
  after it.

  What is opened `Spells` a content when the records it delivers, put together, are that
  content.  A source that keeps its newlines spells the content that it was opened on,
  and nothing else is spelled by it, so the two readers agree on every byte
  (`readWhole_openLines_agree`).
-/
import FileAccess.Proofs.Files.Outcomes

namespace FileAccess

open Bytes

/-! ### What an opened file spells -/

namespace Reader

theorem delivers_source {source source' : LineSource} {records : List Bytes}
    (h : Delivers LineSource.next source records source') :
    Delivers Reader.next (.source source) records (.source source') :=
  h.map Reader.source fun _ => rfl

theorem delivers_empty : Delivers Reader.next .empty [] .empty :=
  .exhausted rfl

end Reader

namespace Opened

/-- Asked until there is no record, what was opened delivers records that are the content
    put together. -/
def Spells (opened : Opened) (content : Bytes) : Prop :=
  ∃ reader records reader', opened.reader? = some reader ∧
    Delivers Reader.next reader records reader' ∧ records.flatten = content

theorem Spells.unique {opened : Opened} {content content' : Bytes} (h : opened.Spells content)
    (h' : opened.Spells content') : content = content' := by
  obtain ⟨reader, records, _, hreader, hdelivers, rfl⟩ := h
  obtain ⟨reader', records', _, hreader', hdelivers', rfl⟩ := h'
  obtain rfl : reader = reader' := Option.some.inj (hreader.symm.trans hreader')
  rw [(hdelivers.unique hdelivers').1]

theorem not_spells_absent (content : Bytes) : ¬ absent.Spells content := by
  rintro ⟨_, _, _, hreader, _, _⟩
  cases hreader

theorem spells_empty : empty.Spells [] :=
  ⟨.empty, [], .empty, rfl, Reader.delivers_empty, rfl⟩

theorem spells_start {options : LineOptions} (hstrip : options.strip = false)
    (mtime : Timestamp) (path : Bytes) (store : Store) :
    (source (.start options mtime path store)).Spells store.content := by
  have hreads := LineSource.reads_start options mtime path store
  obtain ⟨source', hdelivers⟩ := LineSource.delivers rfl hreads
  have hrecords : recordsOf (LineSource.start options mtime path store).strips store.content =
      recordsOf false store.content := by
    rw [← hstrip]
    rfl
  refine ⟨_, _, _, rfl, Reader.delivers_source hdelivers, ?_⟩
  calc (recordsOf (LineSource.start options mtime path store).strips store.content).flatten
      = (recordsOf false store.content).flatten := by rw [hrecords]
    _ = store.content := (isCut_recordsOf store.content).flatten_eq

end Opened

/-! ### How the two end -/

/-- What is found under the path, if it is large enough to be mapped, is mapped to just what
    reading it would deliver. -/
def Steady (lookup : Lookup) (path : Bytes) (threshold : Nat) : Prop :=
  ∀ target report, Finds lookup path target report → threshold ≤ report.size → ∀ content,
    target.mapping = .ok content ↔ target.reading.exactly report.size = .ok content

section Steady

variable {lookup : Lookup} {path : Bytes} {threshold : Nat}

/-- A regular file is like that, and so is what can be neither read nor mapped. -/
theorem Steady.of_file_or_useless
    (h : ∀ target report, Finds lookup path target report →
      (∃ content mtime, target = .file content mtime) ∨
        ∀ content, target.mapping ≠ .ok content ∧
          target.reading.exactly report.size ≠ .ok content)
    (threshold : Nat) : Steady lookup path threshold := by
  intro target report hfinds _ content
  rcases h target report hfinds with ⟨bytes, mtime, rfl⟩ | huseless
  · cases hfinds.stat_eq
    rw [Reading.exactly_eq_ok_iff]
    constructor
    · rintro ⟨⟩
      exact ⟨Nat.le_refl _, List.take_length⟩
    · rintro ⟨_, rfl⟩
      exact congrArg Except.ok List.take_length.symm
  · simp [huseless content]

/-- From such a path the two readers fetch the same. -/
theorem Steady.fetch_eq_ok_iff (h : Steady lookup path threshold) {target : Target}
    {report : Stat} (hfinds : Finds lookup path target report) (content : Bytes) :
    Purpose.whole.fetch path target report.size = .ok content ↔
      (Purpose.lines threshold).fetch path target report.size = .ok content := by
  have hwhole : ¬ Purpose.whole.maps report.size := not_false
  rw [Purpose.fetch_of_not_maps hwhole]
  by_cases hmaps : (Purpose.lines threshold).maps report.size
  · rw [Purpose.fetch_of_maps hmaps, Except.mapError_eq_ok_iff, Except.mapError_eq_ok_iff,
      h target report hfinds hmaps]
  · rw [Purpose.fetch_of_not_maps hmaps]

end Steady

/-- The ends of reading a path whole and of opening it for its lines, side by side. -/
inductive BothEnd (lookup : Lookup) (path : Bytes) (options : LineOptions) :
    Except Error (Option Bytes) → Except Error Opened → Prop where
  | file {content : Bytes} (mtime : Timestamp) (store : Store) (hcontent : store.content = content) :
      BothEnd lookup path options (.ok (some content))
        (.ok (.source (.start options mtime path store)))
  | empty : BothEnd lookup path options (.ok (some [])) (.ok .empty)
  | absent : BothEnd lookup path options (.ok none) (.ok .absent)
  | refused (e : Error) : BothEnd lookup path options (.error e) (.error e)
  | failed {target : Target} {report : Stat} (hfinds : Finds lookup path target report)
      {e e' : Error} (hwhole : Purpose.whole.fetch path target report.size = .error e) :
      BothEnd lookup path options (.error e) (.error e')

theorem bothEnd {lookup : Lookup} {path : Bytes} {options : LineOptions}
    (h : Steady lookup path options.threshold) (host host' : Host) :
    BothEnd lookup path options (readWhole lookup path options.missing host).1
      (openLines lookup path options host').1 := by
  rcases OpenFile.acquire_fails_or_finds lookup path with ⟨e, hfails⟩ | ⟨target, report, hfinds⟩
  · cases hmissing : e.isNotFound with
    | false =>
      rw [readWhole_refused (hfails host).1 hmissing, openLines_refused (hfails host').1 hmissing]
      exact .refused e
    | true =>
      rw [readWhole_missing (hfails host).1 hmissing, openLines_missing (hfails host').1 hmissing]
      cases options.missing with
      | raise => exact .refused e
      | empty => exact .empty
      | absent => exact .absent
  · have hsame := h.fetch_eq_ok_iff hfinds
    rw [readWhole_found hfinds]
    cases hwhole : Purpose.whole.fetch path target report.size with
    | ok content =>
      obtain ⟨store, _, hlines, hcontent, _⟩ :=
        exists_openLines_eq_of_fetch hfinds ((hsame content).1 hwhole) host'
      rw [hlines]
      exact .file report.mtime store hcontent
    | error e =>
      cases hfetch : (Purpose.lines options.threshold).fetch path target report.size with
      | ok content =>
        rw [(hsame content).2 hfetch] at hwhole
        cases hwhole
      | error e' =>
        rw [openLines_failed hfinds hfetch]
        exact .failed hfinds hwhole

namespace BothEnd

variable {lookup : Lookup} {path : Bytes} {options : LineOptions}
  {whole : Except Error (Option Bytes)} {opened : Except Error Opened}

theorem content_iff (h : BothEnd lookup path options whole opened) :
    (∃ content, whole = .ok (some content)) ↔
      (∃ source, opened = .ok (.source source)) ∨ opened = .ok .empty := by
  cases h <;> simp

theorem absent_iff (h : BothEnd lookup path options whole opened) :
    whole = .ok none ↔ opened = .ok .absent := by
  cases h <;> simp

theorem spells_iff (h : BothEnd lookup path options whole opened) (hstrip : options.strip = false)
    (content : Bytes) :
    whole = .ok (some content) ↔ ∃ result, opened = .ok result ∧ result.Spells content := by
  -- what was opened spells one content, and that is the one read
  have hone : ∀ {result : Opened} {content' : Bytes}, result.Spells content' →
      ((Except.ok (some content') : Except Error (Option Bytes)) = .ok (some content) ↔
        ∃ result', (Except.ok result : Except Error Opened) = .ok result' ∧
          result'.Spells content) := by
    intro result content' hspells
    constructor
    · rintro ⟨⟩
      exact ⟨result, rfl, hspells⟩
    · rintro ⟨_, ⟨⟩, hother⟩
      rw [hspells.unique hother]
  cases h with
  | file mtime store hcontent =>
    apply hone
    rw [← hcontent]
    exact Opened.spells_start hstrip mtime path store
  | empty => exact hone Opened.spells_empty
  | absent => simp [Opened.not_spells_absent]
  | refused e => simp
  | failed hfinds hwhole => simp

theorem source (h : BothEnd lookup path options whole opened) {source : LineSource}
    {content : Bytes} (hsource : opened = .ok (.source source))
    (hwhole : whole = .ok (some content)) :
    source.length = content.length ∧ source.remaining = content := by
  cases h with
  | file mtime store hcontent =>
    cases hsource
    cases hwhole
    rw [← hcontent]
    exact ⟨rfl, rfl⟩
  | empty => cases hsource
  | absent => cases hsource
  | refused e => cases hsource
  | failed hfinds hwhole => cases hsource

theorem error_iff (h : BothEnd lookup path options whole opened)
    (hreadable : ∀ target report, Finds lookup path target report →
      ∃ content, Purpose.whole.fetch path target report.size = .ok content) (e : Error) :
    whole = .error e ↔ opened = .error e := by
  cases h with
  | failed hfinds hwhole =>
    obtain ⟨content, hfetch⟩ := hreadable _ _ hfinds
    cases hwhole.symm.trans hfetch
  | _ => simp

end BothEnd

/-- A failed open that the policy lets through is how both end. -/
theorem refused_of_acquire {lookup : Lookup} {path : Bytes} {host₀ : Host} {e : Error}
    (he : (OpenFile.acquire lookup path host₀).1 = .error e) (options : LineOptions)
    (hraise : e.isNotFound = true → options.missing = .raise) (host host' : Host) :
    (readWhole lookup path options.missing host).1 = .error e ∧
      (openLines lookup path options host').1 = .error e := by
  have hfails : ∀ host, (OpenFile.acquire lookup path host).1 = .error e := by
    intro host
    rcases OpenFile.acquire_fails_or_finds lookup path with ⟨e', hfails⟩ | ⟨target, report, hfinds⟩
    · exact (hfails host).1.trans ((hfails host₀).1.symm.trans he)
    · exact absurd he (hfinds.acquire_fst_ne_error host₀ e)
  cases hmissing : e.isNotFound with
  | false =>
    rw [readWhole_refused (hfails host) hmissing, openLines_refused (hfails host') hmissing]
    exact ⟨rfl, rfl⟩
  | true =>
    rw [readWhole_missing (hfails host) hmissing, openLines_missing (hfails host') hmissing,
      hraise hmissing]
    exact ⟨rfl, rfl⟩

/-! ### Agreement -/

/-- What is owed by a path read whole and the same path opened with its newlines kept. -/
structure ReadersAgree (lookup : Lookup) (path : Bytes) (policy : MissingPolicy)
    (whole : Except Error (Option Bytes)) (opened : Except Error Opened) : Prop where
  /-- A content is read where a source or the empty sequence is opened, and only there, -/
  content_iff : (∃ content, whole = .ok (some content)) ↔
    (∃ source, opened = .ok (.source source)) ∨ opened = .ok .empty
  /-- and the records of either make it up. -/
  spells_iff : ∀ content, whole = .ok (some content) ↔
    ∃ result, opened = .ok result ∧ result.Spells content
  /-- A source has the length of the content, and all of it ahead. -/
  source : ∀ source content, opened = .ok (.source source) → whole = .ok (some content) →
    source.length = content.length ∧ source.remaining = content
  /-- Nothing is read where nothing is opened, and only there. -/
  absent_iff : whole = .ok none ↔ opened = .ok .absent
  /-- An error of the open that the policy lets through is the error of both. -/
  refused : ∀ host e, (OpenFile.acquire lookup path host).1 = .error e →
    (e.isNotFound = true → policy = .raise) → whole = .error e ∧ opened = .error e
  /-- Where there is a regular file, or nothing that can be opened, they have no other
      errors. -/
  error_iff : (∃ content mtime, lookup.open? path = .ok (.file content mtime)) ∨
      (∀ target report, ¬ Finds lookup path target report) →
    ∀ e, whole = .error e ↔ opened = .error e

end FileAccess
