/-
  FileAccess/Proofs/Session/Sharing.lean
  ======================================
  **Preferences are shared by related handles, and by no others.**

  In every state of a session the format found through a name, and the one with which a
  source renders its modification time, is what the handle there shows: the format set
  last through a related handle, or else the one that the group was made with.  Only a
  set through a related handle changes it, and what was captured of a file when it was
  opened stays as it is for the life of the source.
-/
import FileAccess.Proofs.Session.Chronicle

namespace FileAccess

namespace Session

/-- What is found under a name has a handle. -/
theorem Named.exists_number {h : History} {numbers : Registry Nat}
    {found : String → Option Preferences} {name : String} {p : Preferences}
    (hnamed : Named h numbers found) (hfound : found name = some p) :
    ∃ i, numbers.get? name = some i := by
  have heq := (hnamed name).2
  rw [hfound] at heq
  obtain ⟨i, hi, _⟩ := Option.map_eq_some_iff.1 heq.symm
  exact ⟨i, hi⟩

theorem exists_source_of_sourcePreferences? {s : Session} {name : String} {p : Preferences}
    (h : s.sourcePreferences? name = some p) :
    ∃ source, s.opened.get? name = some (.source source) ∧ source.preferences = p := by
  obtain ⟨opened, hget, hopened⟩ := Option.bind_eq_some_iff.1 h
  cases opened with
  | source source => exact ⟨source, hget, Option.some.inj hopened⟩
  | empty => cases hopened
  | absent => cases hopened

namespace Tells

variable {c : Chronicle} {s : Session} {numbers : Registry Nat}
  {found : String → Option Preferences} {name : String} {i : Nat} {f : Timestamp.Format}

/-- Under a name with a handle is something that has in its cell what the handle shows. -/
theorem exists_shows (htells : Tells c s) (hnamed : Named c.deeds numbers found)
    (hi : numbers.get? name = some i) :
    ∃ p f, found name = some p ∧ c.deeds.Shows i f ∧ p.format s.host = f := by
  obtain ⟨hhandle, hfound⟩ := hnamed name
  rw [hi] at hfound
  obtain ⟨f, hcell, hshows⟩ := htells.sound.exists_shows (hhandle i hi)
  refine ⟨_, f, hfound, hshows, ?_⟩
  rw [Preferences.format, htells.cells_eq, hcell]
  rfl

theorem exists_mtime_eq (htells : Tells c s) (hi : c.sources.get? name = some i) :
    ∃ source f, s.opened.get? name = some (.source source) ∧ c.deeds.Shows i f ∧
      source.mtime s.host = source.rawMtime.render f := by
  obtain ⟨p, f, hfound, hshows, hformat⟩ := htells.exists_shows htells.sources hi
  obtain ⟨source, hget, rfl⟩ := exists_source_of_sourcePreferences? hfound
  refine ⟨source, f, hget, hshows, ?_⟩
  rw [LineSource.mtime, Preferences.render, hformat]

theorem exists_number_of_source (htells : Tells c s) {source : LineSource}
    (hget : s.opened.get? name = some (.source source)) : ∃ i, c.sources.get? name = some i := by
  have hfound : s.sourcePreferences? name = some source.preferences := by
    rw [sourcePreferences?, hget]
    rfl
  exact htells.sources.exists_number hfound

/-- A step changes what a handle shows only by setting a related handle. -/
theorem shows_step (htells : Tells c s) (step : Step) (hi : c.deeds.IsHandle i)
    (hshows : c.deeds.Shows i f)
    (hother : ∀ name g j, step = .setFormat name g → c.handles.get? name = some j →
      ¬ c.deeds.Related i j) :
    (c.follow step (s.step step).1).deeds.Shows i f := by
  have hsound := (htells.step step).sound
  rcases c.follow_deeds step (s.step step).1 with hsame | ⟨deed, hcons, hset⟩
  · rw [hsame]
    exact hshows
  · rw [hcons] at hsound ⊢
    apply hshows.cons hi hsound
    intro j g hdeed
    obtain ⟨name, hstep, hj⟩ := hset j g hdeed
    exact hother name g j hstep hj

end Tells

/-- How formats are shared in a session of which a chronicle is kept. -/
structure FormatsShared (c : Chronicle) (s : Session) : Prop where
  /-- Under a name with a handle is a preference, and it has, and renders in, the format
      that the handle shows. -/
  named : ∀ name i, c.handles.get? name = some i →
    ∃ p f, s.preferences.get? name = some p ∧ c.deeds.Shows i f ∧
      p.format s.host = f ∧ ∀ t, p.render t s.host = t.render f
  /-- Under a name with the handle of a source is that source, and it renders its
      modification time in the format that the handle shows. -/
  opened : ∀ name i, c.sources.get? name = some i →
    ∃ source f, s.opened.get? name = some (.source source) ∧ c.deeds.Shows i f ∧
      source.mtime s.host = source.rawMtime.render f
  /-- There are no others, and the handles of all were made. -/
  named_iff : ∀ name, (∃ p, s.preferences.get? name = some p) ↔
    ∃ i, c.handles.get? name = some i ∧ c.deeds.IsHandle i
  opened_iff : ∀ name, (∃ source, s.opened.get? name = some (.source source)) ↔
    ∃ i, c.sources.get? name = some i ∧ c.deeds.IsHandle i
  /-- No handle shows two formats. -/
  unique : ∀ i f g, c.deeds.Shows i f → c.deeds.Shows i g → f = g
  /-- What a handle shows is changed by no step but one that sets a related handle. -/
  frame : ∀ step i f, c.deeds.IsHandle i → c.deeds.Shows i f →
    (∀ name g j, step = .setFormat name g → c.handles.get? name = some j →
      ¬ c.deeds.Related i j) →
    (c.follow step (s.step step).1).deeds.Shows i f
  /-- As long as a name has the handle of a source, the source under it has the
      modification time that it was opened with. -/
  rawMtime : ∀ name i source steps, c.sources.get? name = some i →
    s.opened.get? name = some (.source source) →
    (c.followAll steps (s.run steps).1).sources.get? name = some i →
    ∃ source', (s.run steps).2.opened.get? name = some (.source source') ∧
      source'.rawMtime = source.rawMtime

theorem Tells.formatsShared {c : Chronicle} {s : Session} (h : Tells c s) :
    FormatsShared c s := by
  constructor
  case named =>
    intro name i hi
    obtain ⟨p, f, hp, hshows, hformat⟩ := h.exists_shows h.handles hi
    refine ⟨p, f, hp, hshows, hformat, ?_⟩
    intro t
    rw [Preferences.render, hformat]
  case opened =>
    intro name i hi
    exact h.exists_mtime_eq hi
  case named_iff =>
    intro name
    constructor
    · rintro ⟨p, hp⟩
      obtain ⟨i, hi⟩ := h.handles.exists_number hp
      exact ⟨i, hi, (h.handles name).1 i hi⟩
    · rintro ⟨i, hi, _⟩
      obtain ⟨p, _, hp, _⟩ := h.exists_shows h.handles hi
      exact ⟨p, hp⟩
  case opened_iff =>
    intro name
    constructor
    · rintro ⟨source, hget⟩
      obtain ⟨i, hi⟩ := h.exists_number_of_source hget
      exact ⟨i, hi, (h.sources name).1 i hi⟩
    · rintro ⟨i, hi, _⟩
      obtain ⟨source, _, hget, _⟩ := h.exists_mtime_eq hi
      exact ⟨source, hget⟩
  case unique =>
    intro i f g hf hg
    exact h.sound.shows_unique hf hg
  case frame =>
    intro step i f hi hshows hother
    exact h.shows_step step hi hshows hother
  case rawMtime =>
    intro name i source steps hi hget hlater
    have hhandle := (h.sources name).1 i hi
    have hkeeps : Keeps c s name i source := ⟨hhandle.lt_length, fun _ => ⟨source.window, hget⟩⟩
    obtain ⟨window, hget'⟩ := (hkeeps.run steps).source hlater
    exact ⟨_, hget', rfl⟩

/-- **Formats are shared by related handles in every state that a session can reach.** -/
theorem run_start_formatsShared (tree : Tree) (configHome : Option Bytes) (steps : List Step) :
    FormatsShared (Chronicle.followAll {} steps ((start tree configHome).run steps).1)
      ((start tree configHome).run steps).2 :=
  ((tells_start tree configHome).run steps).formatsShared

end Session

end FileAccess
