/-
  FileAccess/Proofs/Session/Chronicle.lean
  ========================================
  **The preference handles of a session.**

  A chronicle follows a session from outside: from the steps and their answers alone it
  keeps the history of the preference handles, and which of them the names stand for.
  A new preference is a handle under its name.  An open makes a handle for its options,
  a copy of the preference it was given or one with the format of the settings, and the
  source that it opens keeps that handle.

  The chronicle tells the truth about the session (`Tells`): the cells of the host are
  those of the history, and what is found under a name uses the cell of the handle that
  the chronicle has there.  One step keeps this up (`Tells.step`), and so does a run.
-/
import FileAccess.Proofs.Files.Cells
import FileAccess.Proofs.Session.Actions
import FileAccess.Proofs.Session.Handles

namespace FileAccess

/-! ### What actions leave as it is -/

theorem Session.step_on_cells (s : Session) (name : String) (action : Action) :
    (s.step (.on name action)).2.host.cells = s.host.cells := by
  cases hget : s.opened.get? name with
  | none => rw [step_on_of_none hget]
  | some opened =>
    rw [step_on hget]
    rcases act_cases hget action with ⟨_, hact⟩ | ⟨opened', _, hact⟩ | ⟨_, hact⟩
    · rw [hact]
    · rw [hact]
    · rw [hact, dropName, hget]
      exact opened.drop_cells s.host

/-- The handle that something opened keeps. -/
def Opened.preferences? : Opened → Option Preferences
  | .source s => some s.preferences
  | _ => none

theorem Opened.preferences?_after {opened opened' : Opened} {action : Session.Action}
    (h : opened.after action = some opened') : opened'.preferences? = opened.preferences? := by
  by_cases hsource : ∃ source, opened = .source source
  · obtain ⟨source, rfl⟩ := hsource
    obtain ⟨window, rfl⟩ := exists_window_of_after h
    rfl
  · rw [after_of_not_source (not_exists.1 hsource) h]

namespace Session

/-! ### Chronicles -/

structure Chronicle where
  deeds : History := []
  /-- The handles that names of preferences stand for, -/
  handles : Registry Nat := []
  /-- and those of the sources that names stand for. -/
  sources : Registry Nat := []
  settings : Registry Settings := []

namespace Chronicle

/-- How a preference is made that is to share with a name, where the name has a handle,
    or else to start with a format. -/
def sharing (c : Chronicle) (name : Option String) (format : Timestamp.Format) : Deed :=
  match name.bind c.handles.get? with
  | some i => .clone i
  | none => .create format

/-- How a new preference is made. -/
def making (c : Chronicle) : PreferenceOrigin → Deed
  | .share name => c.sharing (some name) default
  | .settings name =>
    match c.settings.get? name with
    | some settings => .create settings.mtimeFormat
    | none => .create default
  | .format format => .create format
  | .standard => .create default

/-- How the handle of the options of an open is made. -/
def opening (c : Chronicle) (request : OpenRequest) : Deed :=
  c.sharing request.preferences
    ((request.settings.bind c.settings.get?).getD Settings.standard).mtimeFormat

/-- The chronicle after one more deed. -/
def record (c : Chronicle) (deed : Deed) : Chronicle :=
  { c with deeds := deed :: c.deeds }

/-- The chronicle after a step that was answered. -/
def follow (c : Chronicle) : Step → Answer → Chronicle
  | .newPreferences name origin, _ =>
    { c.record (c.making origin) with handles := c.handles.store name c.deeds.length }
  | .setFormat name format, _ =>
    match c.handles.get? name with
    | some i => c.record (.set i format)
    | none => c
  | .dropPreferences name, _ => { c with handles := c.handles.erase name }
  | .settings name _, .settings settings => { c with settings := c.settings.store name settings }
  | .openLines name _ request _, answer =>
    match answer with
    | .openedSource _ _ =>
      { c.record (c.opening request) with sources := c.sources.store name c.deeds.length }
    | .failed _ => c.record (c.opening request)
    | _ => { c.record (c.opening request) with sources := c.sources.erase name }
  | .on name .release, _ => { c with sources := c.sources.erase name }
  | .on name .drop, _ => { c with sources := c.sources.erase name }
  | _, _ => c

def followAll (c : Chronicle) : List Step → List Answer → Chronicle
  | step :: steps, answer :: answers => (c.follow step answer).followAll steps answers
  | _, _ => c

variable {c : Chronicle} {step : Step} {answer : Answer} {name : String} {i : Nat}

theorem follow_setFormat (hi : c.handles.get? name = some i) (f : Timestamp.Format)
    (answer : Answer) : c.follow (.setFormat name f) answer = c.record (.set i f) := by
  simp only [follow, hi]

/-- A step adds a deed or none, and a format is set only by the step that says so. -/
theorem follow_deeds (c : Chronicle) (step : Step) (answer : Answer) :
    (c.follow step answer).deeds = c.deeds ∨
      ∃ deed, (c.follow step answer).deeds = deed :: c.deeds ∧
        ∀ j f, deed = .set j f → ∃ name, step = .setFormat name f ∧
          c.handles.get? name = some j := by
  have hsharing : ∀ name g j f, c.sharing name g ≠ .set j f := by
    intro name g j f
    rw [sharing]
    split <;> exact nofun
  cases step with
  | newPreferences name origin =>
    refine Or.inr ⟨c.making origin, rfl, ?_⟩
    intro j f hset
    cases origin with
    | share name => exact absurd hset (hsharing _ _ _ _)
    | settings name =>
      rw [making] at hset
      split at hset <;> cases hset
    | format g => cases hset
    | standard => cases hset
  | openLines name path request inBackground =>
    refine Or.inr ⟨c.opening request, ?_, ?_⟩
    · cases answer <;> rfl
    · intro j f hset
      exact absurd hset (hsharing _ _ _ _)
  | setFormat name f =>
    cases hget : c.handles.get? name with
    | none =>
      left
      simp only [follow, hget]
    | some i =>
      right
      refine ⟨.set i f, ?_, ?_⟩
      · rw [follow_setFormat hget]
        rfl
      · intro j g hset
        cases hset
        exact ⟨name, rfl, hget⟩
  | settings name origin => left; cases answer <;> rfl
  | on name action => left; cases action <;> rfl
  | _ => exact Or.inl rfl

/-- The history only grows. -/
theorem deeds_suffix_follow (c : Chronicle) (step : Step) (answer : Answer) :
    c.deeds <:+ (c.follow step answer).deeds := by
  rcases c.follow_deeds step answer with hsame | ⟨latest, hcons, _⟩
  · exact hsame ▸ List.suffix_rfl
  · rw [hcons]
    exact List.suffix_cons latest c.deeds

theorem deeds_suffix_followAll (c : Chronicle) (steps : List Step) (answers : List Answer) :
    c.deeds <:+ (c.followAll steps answers).deeds := by
  induction steps generalizing c answers with
  | nil => exact List.suffix_rfl
  | cons step steps ih =>
    cases answers with
    | nil => exact List.suffix_rfl
    | cons answer answers => exact (c.deeds_suffix_follow step answer).trans (ih _ answers)

/-- A step changes which source is under the name it speaks of, and under no other. -/
theorem sources_follow_of_ne (hname : step.subject? ≠ some name) (c : Chronicle)
    (answer : Answer) : (c.follow step answer).sources.get? name = c.sources.get? name := by
  cases step with
  | openLines other path request inBackground =>
    have hne : name ≠ other := fun heq => hname (congrArg some heq.symm)
    cases answer with
    | openedSource length isMapped => exact Registry.get?_store_of_ne hne _ _
    | failed e => rfl
    | _ => exact Registry.get?_erase_of_ne hne _
  | on other action =>
    have hne : name ≠ other := fun heq => hname (congrArg some heq.symm)
    cases action with
    | release => exact Registry.get?_erase_of_ne hne _
    | drop => exact Registry.get?_erase_of_ne hne _
    | _ => rfl
  | setFormat other f =>
    rw [follow]
    split <;> rfl
  | settings other origin => cases answer <;> rfl
  | _ => rfl

/-- An action that ends no life leaves the chronicle as it is. -/
theorem follow_on {action : Action} (hlasts : ¬ (action = .release ∨ action = .drop))
    (c : Chronicle) (name : String) (answer : Answer) : c.follow (.on name action) answer = c := by
  cases action with
  | release => exact absurd (Or.inl rfl) hlasts
  | drop => exact absurd (Or.inr rfl) hlasts
  | _ => rfl

theorem follow_on_end {action : Action} (haction : action = .release ∨ action = .drop)
    (c : Chronicle) (name : String) (answer : Answer) :
    c.follow (.on name action) answer = { c with sources := c.sources.erase name } := by
  rcases haction with rfl | rfl <;> rfl

end Chronicle

/-! ### Names of handles -/

/-- What is found under a name uses the cell of the handle that the name has. -/
def Named (h : History) (numbers : Registry Nat) (found : String → Option Preferences) : Prop :=
  ∀ name, (∀ i, numbers.get? name = some i → h.IsHandle i) ∧
    found name = (numbers.get? name).map fun i => ⟨h.cellOf i⟩

namespace Named

variable {h : History} {numbers : Registry Nat} {found found' : String → Option Preferences}
  {name : String} {i : Nat}

theorem congr (hnamed : Named h numbers found) (hsame : ∀ name, found' name = found name) :
    Named h numbers found' := by
  intro name
  rw [hsame]
  exact hnamed name

theorem record (hnamed : Named h numbers found) (deed : Deed) :
    Named (deed :: h) numbers found := by
  intro name
  obtain ⟨hhandle, hfound⟩ := hnamed name
  constructor
  · intro i hi
    exact (hhandle i hi).cons deed
  · rw [hfound]
    cases hget : numbers.get? name with
    | none => rfl
    | some i => rw [Option.map_some, Option.map_some, History.cellOf_cons (hhandle i hget).lt_length]

theorem store (hnamed : Named h numbers found) (hi : h.IsHandle i)
    (hself : found' name = some ⟨h.cellOf i⟩)
    (hother : ∀ other, other ≠ name → found' other = found other) :
    Named h (numbers.store name i) found' := by
  intro other
  by_cases hname : other = name
  · subst hname
    rw [Registry.get?_store_self, hself]
    refine ⟨?_, rfl⟩
    intro j hj
    cases hj
    exact hi
  · rw [Registry.get?_store_of_ne hname, hother other hname]
    exact hnamed other

theorem erase (hnamed : Named h numbers found) (hself : found' name = none)
    (hother : ∀ other, other ≠ name → found' other = found other) :
    Named h (numbers.erase name) found' := by
  intro other
  by_cases hname : other = name
  · subst hname
    rw [Registry.get?_erase_self, hself]
    exact ⟨nofun, rfl⟩
  · rw [Registry.get?_erase_of_ne hname, hother other hname]
    exact hnamed other

end Named

/-! ### What a chronicle tells -/

def sourcePreferences? (s : Session) (name : String) : Option Preferences :=
  (s.opened.get? name).bind Opened.preferences?

structure Tells (c : Chronicle) (s : Session) : Prop where
  sound : c.deeds.Sound
  cells_eq : s.host.cells = c.deeds.cells
  settings_eq : s.settings = c.settings
  handles : Named c.deeds c.handles s.preferences.get?
  sources : Named c.deeds c.sources s.sourcePreferences?

theorem tells_start (tree : Tree) (configHome : Option Bytes) : Tells {} (start tree configHome) where
  sound := trivial
  cells_eq := rfl
  settings_eq := rfl
  handles := fun _ => ⟨nofun, rfl⟩
  sources := fun _ => ⟨nofun, rfl⟩

/-- A preference made by a deed: it uses the cell of the handle that the deed makes, and
    the host has the cells of the history with that deed. -/
structure Made (c : Chronicle) (deed : Deed) (p : Preferences) (host : Host) : Prop where
  fits : c.deeds.Fits deed
  isHandle : History.IsHandle (deed :: c.deeds) c.deeds.length
  preferences_eq : p = ⟨History.cellOf (deed :: c.deeds) c.deeds.length⟩
  cells_eq : host.cells = History.cells (deed :: c.deeds)

namespace Tells

variable {c : Chronicle} {s s' : Session} {name : String}

/-- Two sessions of which the same is told. -/
theorem congr (h : Tells c s) (hcells : s'.host.cells = s.host.cells)
    (hpreferences : s'.preferences = s.preferences) (hsettings : s'.settings = s.settings)
    (hsources : ∀ name, s'.sourcePreferences? name = s.sourcePreferences? name) : Tells c s' where
  sound := h.sound
  cells_eq := hcells.trans h.cells_eq
  settings_eq := hsettings.trans h.settings_eq
  handles := by
    rw [hpreferences]
    exact h.handles
  sources := h.sources.congr hsources

/-! ### Preferences that are made -/

theorem made_create (h : Tells c s) (f : Timestamp.Format) :
    Made c (.create f) (s.createPreferences f).1 (s.createPreferences f).2.host where
  fits := trivial
  isHandle := History.isHandle_create f c.deeds
  preferences_eq := by
    rw [History.cellOf_create, ← h.cells_eq]
    rfl
  cells_eq := by
    rw [History.cells, ← h.cells_eq]
    rfl

theorem made_clone (h : Tells c s) {i : Nat} {p : Preferences}
    (hi : c.handles.get? name = some i) (hp : s.preferences.get? name = some p) :
    Made c (.clone i) p s.host := by
  obtain ⟨hhandle, hfound⟩ := h.handles name
  rw [hi, hp] at hfound
  exact {
    fits := hhandle i hi
    isHandle := History.isHandle_clone i c.deeds
    preferences_eq := by
      rw [History.cellOf_clone]
      exact Option.some.inj hfound
    cells_eq := h.cells_eq }

/-- A preference that shares with a name, or starts with a format, is made as the
    chronicle has it. -/
theorem made_sharing (h : Tells c s) (name : Option String) (f : Timestamp.Format) :
    let made := match name.bind s.preferences.get? with
      | some p => (p, s)
      | none => s.createPreferences f
    Made c (c.sharing name f) made.1 made.2.host := by
  cases name with
  | none => exact h.made_create f
  | some name =>
    have hfound := (h.handles name).2
    rw [Chronicle.sharing, Option.bind_some, Option.bind_some]
    cases hi : c.handles.get? name with
    | none =>
      rw [hi] at hfound
      rw [hfound]
      exact h.made_create f
    | some i =>
      rw [hi] at hfound
      rw [hfound]
      exact h.made_clone hi hfound

theorem made_preferencesOf (h : Tells c s) (origin : PreferenceOrigin) :
    Made c (c.making origin) (s.preferencesOf origin).1 (s.preferencesOf origin).2.host := by
  cases origin with
  | share name => exact h.made_sharing (some name) default
  | settings name =>
    rw [Chronicle.making, ← h.settings_eq, preferencesOf]
    cases s.settings.get? name with
    | none => exact h.made_create default
    | some settings => exact h.made_create settings.mtimeFormat
  | format f => exact h.made_create f
  | standard => exact h.made_create default

theorem made_optionsOf (h : Tells c s) (request : OpenRequest) :
    Made c (c.opening request) (s.optionsOf request).1.preferences
      (s.optionsOf request).2.host := by
  rw [Chronicle.opening, ← h.settings_eq]
  exact h.made_sharing request.preferences _

/-- The deed that made a preference is recorded; no name stands for it yet. -/
theorem record (h : Tells c s) {deed : Deed} {p : Preferences} {host : Host}
    (hmade : Made c deed p host) : Tells (c.record deed) { s with host := host } where
  sound := ⟨hmade.fits, h.sound⟩
  cells_eq := hmade.cells_eq
  settings_eq := h.settings_eq
  handles := h.handles.record deed
  sources := h.sources.record deed

/-! ### Steps -/

theorem step_newPreferences (h : Tells c s) (name : String) (origin : PreferenceOrigin) :
    Tells (c.follow (.newPreferences name origin) (s.step (.newPreferences name origin)).1)
      (s.step (.newPreferences name origin)).2 := by
  have hmade := h.made_preferencesOf origin
  have hrecorded := h.record hmade
  rw [← preferencesOf_snd] at hrecorded
  have hself : (s.step (.newPreferences name origin)).2.preferences.get? name =
      some (s.preferencesOf origin).1 :=
    Registry.get?_store_self _ name _
  refine ⟨hrecorded.sound, hrecorded.cells_eq, hrecorded.settings_eq, ?_, hrecorded.sources⟩
  apply hrecorded.handles.store hmade.isHandle
  · rw [hself, hmade.preferences_eq]
    rfl
  · intro other hother
    exact Registry.get?_store_of_ne hother _ _

theorem step_setFormat (h : Tells c s) (name : String) (f : Timestamp.Format) :
    Tells (c.follow (.setFormat name f) (s.step (.setFormat name f)).1)
      (s.step (.setFormat name f)).2 := by
  obtain ⟨hhandle, hfound⟩ := h.handles name
  simp only [step, Chronicle.follow, hfound]
  cases hi : c.handles.get? name with
  | none => exact h
  | some i =>
    constructor
    case sound => exact ⟨hhandle i hi, h.sound⟩
    case cells_eq => exact congrArg (fun cells => cells.set (c.deeds.cellOf i) f) h.cells_eq
    case settings_eq => exact h.settings_eq
    case handles => exact h.handles.record _
    case sources => exact h.sources.record _

theorem step_dropPreferences (h : Tells c s) (name : String) :
    Tells (c.follow (.dropPreferences name) (s.step (.dropPreferences name)).1)
      (s.step (.dropPreferences name)).2 := by
  refine ⟨h.sound, h.cells_eq, h.settings_eq, ?_, h.sources⟩
  apply h.handles.erase
  · exact Registry.get?_erase_self s.preferences name
  · intro other hother
    exact Registry.get?_erase_of_ne hother s.preferences

theorem step_settings (h : Tells c s) (name : String) (origin : SettingsOrigin) :
    Tells (c.follow (.settings name origin) (s.step (.settings name origin)).1)
      (s.step (.settings name origin)).2 := by
  simp only [step]
  cases s.settingsOf origin with
  | error e => exact h
  | ok settings =>
    refine ⟨h.sound, h.cells_eq, ?_, h.handles, h.sources⟩
    exact congrArg (fun registry => registry.store name settings) h.settings_eq

/-- Taking a name away, or storing something under it, changes which handle is kept there
    and nothing else that the chronicle tells. -/
theorem dropName (h : Tells c s) (name : String) :
    Tells { c with sources := c.sources.erase name } (s.dropName name) := by
  have hsources : Named c.deeds (c.sources.erase name) (s.dropName name).sourcePreferences? := by
    apply h.sources.erase
    · rw [sourcePreferences?, dropName_opened, Registry.get?_erase_self]
      rfl
    · intro other hother
      rw [sourcePreferences?, dropName_opened, Registry.get?_erase_of_ne hother]
      rfl
  unfold Session.dropName at hsources ⊢
  cases hget : s.opened.get? name with
  | none =>
    rw [hget] at hsources
    exact { h with sources := hsources }
  | some opened =>
    rw [hget] at hsources
    exact { h with
      cells_eq := (opened.drop_cells s.host).trans h.cells_eq
      sources := hsources }

theorem storeOpened (h : Tells c s) (name : String) (opened : Opened) {numbers : Registry Nat}
    (hsources : Named c.deeds numbers (s.storeOpened name opened).sourcePreferences?) :
    Tells { c with sources := numbers } (s.storeOpened name opened) :=
  { h.dropName name with sources := hsources }

theorem step_openLines (h : Tells c s) (name : String) (path : Bytes) (request : OpenRequest)
    (inBackground : Bool) :
    Tells (c.follow (.openLines name path request inBackground)
        (s.step (.openLines name path request inBackground)).1)
      (s.step (.openLines name path request inBackground)).2 := by
  have hmade := h.made_optionsOf request
  rcases hattempt : s.attemptLines path request with ⟨result, host⟩
  -- the open leaves the cells as the making of the options has left them
  have hcells : (s.attemptLines path request).2.cells = (s.optionsOf request).2.host.cells :=
    openLines_cells s.tree.find path _ _
  rw [hattempt] at hcells
  have hrecorded : Tells (c.record (c.opening request)) { s with host := host } :=
    h.record { hmade with cells_eq := hcells.trans hmade.cells_eq }
  cases result with
  | error e =>
    rw [step_openLines_of_error hattempt]
    exact hrecorded
  | ok opened =>
    rw [step_openLines_of_ok hattempt]
    have hself : ({ s with host := host }.storeOpened name opened).sourcePreferences? name =
        opened.preferences? := by
      rw [sourcePreferences?, get?_storeOpened_self]
      rfl
    have hother : ∀ other, other ≠ name →
        ({ s with host := host }.storeOpened name opened).sourcePreferences? other =
          s.sourcePreferences? other := by
      intro other hother
      rw [sourcePreferences?, get?_storeOpened_of_ne hother]
      rfl
    cases opened with
    | source source =>
      refine hrecorded.storeOpened name _ (hrecorded.sources.store hmade.isHandle ?_ hother)
      rw [hself, Opened.preferences?, preferences_of_openLines hattempt, hmade.preferences_eq]
      rfl
    | empty => exact hrecorded.storeOpened name _ (hrecorded.sources.erase hself hother)
    | absent => exact hrecorded.storeOpened name _ (hrecorded.sources.erase hself hother)

theorem step_on (h : Tells c s) (name : String) (action : Action) :
    Tells (c.follow (.on name action) (s.step (.on name action)).1)
      (s.step (.on name action)).2 := by
  cases hget : s.opened.get? name with
  | none =>
    have hstate : (s.step (.on name action)).2 = s.dropName name := by
      rw [step_on_of_none hget, Session.dropName, hget]
    by_cases haction : action = .release ∨ action = .drop
    · rw [Chronicle.follow_on_end haction, hstate]
      exact h.dropName name
    · rw [Chronicle.follow_on haction, step_on_of_none hget]
      exact h
  | some opened =>
    rw [Session.step_on hget]
    rcases act_cases hget action with ⟨hafter, hact⟩ | ⟨opened', hafter, hact⟩ | ⟨hafter, hact⟩
    · rw [Chronicle.follow_on (Opened.lasts_of_after hafter), hact]
      exact h
    · rw [Chronicle.follow_on (Opened.lasts_of_after hafter), hact]
      refine h.congr rfl rfl rfl ?_
      intro other
      by_cases hname : other = name
      · subst hname
        rw [sourcePreferences?, sourcePreferences?, Registry.get?_store_self, hget]
        exact Opened.preferences?_after hafter
      · rw [sourcePreferences?, Registry.get?_store_of_ne hname]
        rfl
    · rw [Chronicle.follow_on_end (Opened.after_eq_none_iff.1 hafter), hact]
      exact h.dropName name

/-- **A chronicle that tells the truth goes on telling it.** -/
theorem step (h : Tells c s) (step : Step) :
    Tells (c.follow step (s.step step).1) (s.step step).2 := by
  cases step with
  | newPreferences name origin => exact h.step_newPreferences name origin
  | setFormat name f => exact h.step_setFormat name f
  | dropPreferences name => exact h.step_dropPreferences name
  | settings name origin => exact h.step_settings name origin
  | openLines name path request inBackground => exact h.step_openLines name path request inBackground
  | on name action => exact h.step_on name action
  | status path =>
    rw [step_status_snd]
    exact h.congr (OpenFile.status_cells _ _ _) rfl rfl fun _ => rfl
  | readWhole path policy inBackground =>
    rw [step_readWhole_snd]
    exact h.congr (readWhole_cells _ _ _ _) rfl rfl fun _ => rfl
  -- the other steps leave the host and everything under a name as they are
  | _ =>
    unfold Session.step
    dsimp only
    repeat' split
    all_goals exact h.congr rfl rfl rfl fun _ => rfl

theorem run (h : Tells c s) (steps : List Step) :
    Tells (c.followAll steps (s.run steps).1) (s.run steps).2 := by
  induction steps generalizing c s with
  | nil => exact h
  | cons first others ih => exact ih (h.step first)

end Tells

/-! ### The life of a source -/

/-- As long as a name has the handle of a source, the source is there, and nothing but its
    window has changed. -/
structure Keeps (c : Chronicle) (s : Session) (name : String) (i : Nat) (source : LineSource) :
    Prop where
  lt_length : i < c.deeds.length
  source : c.sources.get? name = some i →
    ∃ window, s.opened.get? name = some (.source { source with window := window })

namespace Keeps

variable {c : Chronicle} {s : Session} {name : String} {i : Nat} {source : LineSource}

theorem step (h : Keeps c s name i source) (step : Step) :
    Keeps (c.follow step (s.step step).1) (s.step step).2 name i source := by
  refine ⟨Nat.lt_of_lt_of_le h.lt_length (c.deeds_suffix_follow step _).length_le, ?_⟩
  intro hi
  by_cases hname : step.subject? = some name
  · cases step with
    | openLines other path request inBackground =>
      obtain rfl : other = name := Option.some.inj hname
      rcases hattempt : s.attemptLines path request with ⟨result, host⟩
      cases result with
      | error e =>
        rw [step_openLines_of_error hattempt] at hi ⊢
        exact h.source hi
      | ok opened =>
        rw [step_openLines_of_ok hattempt] at hi
        cases opened with
        | source source' =>
          -- the source that is there now has a later handle
          have hnumber : some c.deeds.length = some i :=
            (Registry.get?_store_self c.sources other c.deeds.length).symm.trans hi
          exact absurd (Option.some.inj hnumber).symm (Nat.ne_of_lt h.lt_length)
        | empty => cases (Registry.get?_erase_self c.sources other).symm.trans hi
        | absent => cases (Registry.get?_erase_self c.sources other).symm.trans hi
    | on other action =>
      obtain rfl : other = name := Option.some.inj hname
      by_cases haction : action = .release ∨ action = .drop
      · rw [Chronicle.follow_on_end haction] at hi
        cases (Registry.get?_erase_self c.sources other).symm.trans hi
      · rw [Chronicle.follow_on haction] at hi
        obtain ⟨window, hget⟩ := h.source hi
        obtain ⟨opened', hafter⟩ :=
          Opened.exists_after haction (.source { source with window := window })
        obtain ⟨window', rfl⟩ := Opened.exists_window_of_after hafter
        refine ⟨window', ?_⟩
        rw [get?_step_on, hget]
        exact hafter
    | _ => cases hname
  · rw [Chronicle.sources_follow_of_ne hname] at hi
    rw [get?_step_of_ne hname]
    exact h.source hi

theorem run (h : Keeps c s name i source) (steps : List Step) :
    Keeps (c.followAll steps (s.run steps).1) (s.run steps).2 name i source := by
  induction steps generalizing c s with
  | nil => exact h
  | cons first others ih => exact ih (h.step first)

end Keeps

end Session

end FileAccess
