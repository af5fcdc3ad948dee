/-
  FileAccess/Proofs/Session/Actions.lean
  ======================================
  **What a step does to what a name stands for.**

  A step speaks of one name among the things opened, or of none, and what the other
  names stand for is left alone (`Session.get?_step_of_ne`).  What an action makes of a
  thing opened depends on that thing only: `Opened.after` is a source with another
  window, or nothing, where the action ends its life.  An open either fails, and then
  the name keeps what it stood for, or puts what it opened under it
  (`Session.step_openLines`).
-/
import FileAccess.Proofs.Files.Descriptors
import FileAccess.Proofs.Session.Registry
import FileAccess.Session.Run

namespace FileAccess

theorem LineSource.exists_window_next (source : LineSource) :
    ∃ window, source.next.2 = { source with window := window } := by
  obtain ⟨store, window, strips, rawMtime, preferences, path⟩ := source
  cases store with
  | none => exact ⟨window, rfl⟩
  | some store => exact ⟨_, rfl⟩

namespace Opened

open Session (Action)

/-- What is left of something opened after an action. -/
def after : Opened → Action → Option Opened
  | .source s, .next _ => some (.source s.next.2)
  | .source s, .lines take => some (.source (s.resume (Session.takeLines s.lines take).2.2))
  | .source s, .lengths => some (.source (s.resume s.lines.drain.2))
  | .source s, .count => some (.source (s.resume s.lines.drain.2))
  | _, .release => none
  | _, .drop => none
  | opened, _ => some opened

variable {opened opened' : Opened} {action : Action}

theorem after_eq_none_iff : opened.after action = none ↔ action = .release ∨ action = .drop := by
  cases action <;> cases opened <;> simp [after]

theorem lasts_of_after (h : opened.after action = some opened') :
    ¬ (action = .release ∨ action = .drop) := by
  intro hends
  rw [after_eq_none_iff.2 hends] at h
  cases h

theorem exists_after (h : ¬ (action = .release ∨ action = .drop)) (opened : Opened) :
    ∃ opened', opened.after action = some opened' :=
  Option.ne_none_iff_exists'.1 (mt after_eq_none_iff.1 h)

/-- An action moves the window of a source and changes nothing else of it. -/
theorem exists_window_of_after {source : LineSource}
    (h : (Opened.source source).after action = some opened') :
    ∃ window, opened' = .source { source with window := window } := by
  cases action with
  | next asReader =>
    obtain ⟨window, hnext⟩ := source.exists_window_next
    cases h
    exact ⟨window, congrArg Opened.source hnext⟩
  | release => cases h
  | drop => cases h
  | _ => cases h; exact ⟨_, rfl⟩

theorem after_of_not_source (h : ∀ source, opened ≠ .source source)
    (hafter : opened.after action = some opened') : opened' = opened := by
  cases opened with
  | source source => exact absurd rfl (h source)
  | empty => cases action <;> cases hafter <;> rfl
  | absent => cases action <;> cases hafter <;> rfl

theorem descriptors_after (h : opened.after action = some opened') :
    opened'.descriptors = opened.descriptors := by
  by_cases hsource : ∃ source, opened = .source source
  · obtain ⟨source, rfl⟩ := hsource
    obtain ⟨window, rfl⟩ := exists_window_of_after h
    rfl
  · rw [after_of_not_source (not_exists.1 hsource) h]

end Opened

namespace Session

variable {s : Session} {name other : String} {opened : Opened}

/-! ### Names -/

theorem dropName_opened (s : Session) (name : String) :
    (s.dropName name).opened = s.opened.erase name := by
  rw [dropName]
  cases hget : s.opened.get? name with
  | none => exact (Registry.erase_of_get?_eq_none hget).symm
  | some opened => rfl

theorem closeName_eq_dropName (hget : s.opened.get? name = some opened) :
    s.closeName name opened = s.dropName name := by
  rw [closeName, dropName, hget, Opened.close_eq_drop]

theorem storeOpened_opened (s : Session) (name : String) (opened : Opened) :
    (s.storeOpened name opened).opened = (name, opened) :: s.opened.erase name := by
  rw [storeOpened]
  show (s.dropName name).opened.store name opened = _
  rw [dropName_opened, Registry.store, Registry.erase_erase]

theorem get?_storeOpened_self (s : Session) (name : String) (opened : Opened) :
    (s.storeOpened name opened).opened.get? name = some opened :=
  Registry.get?_store_self _ name opened

theorem get?_storeOpened_of_ne (h : other ≠ name) (s : Session) (opened : Opened) :
    (s.storeOpened name opened).opened.get? other = s.opened.get? other := by
  rw [storeOpened_opened]
  exact Registry.get?_store_of_ne h s.opened opened

/-! ### Actions -/

/-- What an action does to a session: it leaves it alone, puts under the name what is
    left of what was there, or takes the name away. -/
theorem act_cases (hget : s.opened.get? name = some opened) (action : Action) :
    (opened.after action = some opened ∧ (s.act name opened action).2 = s) ∨
      (∃ opened', opened.after action = some opened' ∧
        (s.act name opened action).2 = { s with opened := s.opened.store name opened' }) ∨
      (opened.after action = none ∧ (s.act name opened action).2 = s.dropName name) := by
  cases action with
  | next asReader =>
    cases opened with
    | source source =>
      refine Or.inr (Or.inl ⟨_, rfl, ?_⟩)
      cases asReader <;> rfl
    | empty => exact Or.inr (Or.inl ⟨_, rfl, rfl⟩)
    | absent => exact Or.inl ⟨rfl, rfl⟩
  | mtime asReader =>
    left
    cases opened with
    | source source => cases asReader <;> exact ⟨rfl, rfl⟩
    | empty => exact ⟨rfl, rfl⟩
    | absent => exact ⟨rfl, rfl⟩
  | lines take =>
    cases opened with
    | source source => exact Or.inr (Or.inl ⟨_, rfl, rfl⟩)
    | empty => exact Or.inl ⟨rfl, rfl⟩
    | absent => exact Or.inl ⟨rfl, rfl⟩
  | lengths =>
    cases opened with
    | source source => exact Or.inr (Or.inl ⟨_, rfl, rfl⟩)
    | empty => exact Or.inl ⟨rfl, rfl⟩
    | absent => exact Or.inl ⟨rfl, rfl⟩
  | count =>
    cases opened with
    | source source => exact Or.inr (Or.inl ⟨_, rfl, rfl⟩)
    | empty => exact Or.inl ⟨rfl, rfl⟩
    | absent => exact Or.inl ⟨rfl, rfl⟩
  | remaining =>
    left
    cases opened <;> exact ⟨rfl, rfl⟩
  | state =>
    left
    cases opened <;> exact ⟨rfl, rfl⟩
  | release =>
    right; right
    rw [← closeName_eq_dropName hget]
    cases opened <;> exact ⟨rfl, rfl⟩
  | drop =>
    right; right
    cases opened <;> exact ⟨rfl, rfl⟩

theorem get?_act_self (hget : s.opened.get? name = some opened) (action : Action) :
    (s.act name opened action).2.opened.get? name = opened.after action := by
  rcases act_cases hget action with ⟨hafter, hact⟩ | ⟨opened', hafter, hact⟩ | ⟨hafter, hact⟩
  · rw [hact, hafter, hget]
  · rw [hact, hafter]
    exact Registry.get?_store_self s.opened name opened'
  · rw [hact, hafter, dropName_opened]
    exact Registry.get?_erase_self s.opened name

theorem get?_act_of_ne (h : other ≠ name) (hget : s.opened.get? name = some opened)
    (action : Action) :
    (s.act name opened action).2.opened.get? other = s.opened.get? other := by
  rcases act_cases hget action with ⟨_, hact⟩ | ⟨opened', _, hact⟩ | ⟨_, hact⟩
  · rw [hact]
  · rw [hact]
    exact Registry.get?_store_of_ne h s.opened opened'
  · rw [hact, dropName_opened]
    exact Registry.get?_erase_of_ne h s.opened

/-! ### Preferences and opens -/

/-- A preference is made without touching anything but the host, -/
theorem preferencesOf_snd (s : Session) (origin : PreferenceOrigin) :
    (s.preferencesOf origin).2 = { s with host := (s.preferencesOf origin).2.host } := by
  unfold preferencesOf
  cases origin with
  | share name => dsimp only; split <;> rfl
  | settings name => dsimp only; split <;> rfl
  | format format => rfl
  | standard => rfl

/-- and so are the options of an open. -/
theorem optionsOf_snd (s : Session) (request : OpenRequest) :
    (s.optionsOf request).2 = { s with host := (s.optionsOf request).2.host } := by
  unfold optionsOf
  dsimp only
  split <;> rfl

theorem access_snd {α : Type} (s : Session) (inBackground : Bool) (operation : Access α) :
    (s.access inBackground operation).2 = { s with host := (operation s.host).2 } := by
  cases inBackground <;> rfl

theorem access_fst {α : Type} (s : Session) (inBackground : Bool) (operation : Access α) :
    (s.access inBackground operation).1 = (operation s.host).1 := by
  cases inBackground <;> rfl

/-- How an open is attempted: with the options of the request, on the host that making
    them has left. -/
def attemptLines (s : Session) (path : Bytes) (request : OpenRequest) :
    Except Error Opened × Host :=
  openLines s.tree.find path (s.optionsOf request).1 (s.optionsOf request).2.host

/-- **A step that opens answers with what it opened and stores it, or fails and leaves
    the name alone.** -/
theorem step_openLines (s : Session) (name : String) (path : Bytes) (request : OpenRequest)
    (inBackground : Bool) :
    s.step (.openLines name path request inBackground) =
      match s.attemptLines path request with
      | (.ok opened, host) => (openedAnswer opened, { s with host := host }.storeOpened name opened)
      | (.error e, host) => (.failed e, { s with host := host }) := by
  have hsnd := s.optionsOf_snd request
  rw [attemptLines]
  rcases hoptions : s.optionsOf request with ⟨options, s₁⟩
  rw [hoptions] at hsnd
  simp only [step, hoptions]
  have hfst := s₁.access_fst inBackground (openLines s₁.tree.find path options)
  have hstate := s₁.access_snd inBackground (openLines s₁.tree.find path options)
  rcases haccess : s₁.access inBackground (openLines s₁.tree.find path options) with ⟨result, s₂⟩
  rw [haccess] at hfst hstate
  dsimp only at hsnd hfst hstate
  have htree : s₁.tree = s.tree := by rw [hsnd]
  rw [htree] at hfst hstate
  rcases hopen : openLines s.tree.find path options s₁.host with ⟨result', host⟩
  rw [hopen] at hfst hstate
  obtain rfl : result = result' := hfst
  have hs₂ : s₂ = { s with host := host } := by
    rw [hstate, hsnd]
  rw [hs₂]
  cases result <;> rfl

theorem step_openLines_of_ok {path : Bytes} {request : OpenRequest} {host : Host}
    (h : s.attemptLines path request = (.ok opened, host)) (name : String) (inBackground : Bool) :
    s.step (.openLines name path request inBackground) =
      (openedAnswer opened, { s with host := host }.storeOpened name opened) := by
  rw [step_openLines, h]

theorem step_openLines_of_error {path : Bytes} {request : OpenRequest} {host : Host} {e : Error}
    (h : s.attemptLines path request = (.error e, host)) (name : String) (inBackground : Bool) :
    s.step (.openLines name path request inBackground) = (.failed e, { s with host := host }) := by
  rw [step_openLines, h]

/-! ### Steps -/

/-- The name that a step speaks of among the things opened. -/
def Step.subject? : Step → Option String
  | .openLines name _ _ _ => some name
  | .on name _ => some name
  | _ => none

theorem step_on (hget : s.opened.get? name = some opened) (action : Action) :
    s.step (.on name action) = s.act name opened action := by
  simp only [step, hget]

theorem step_on_of_none (hget : s.opened.get? name = none) (action : Action) :
    s.step (.on name action) = (.unknownName, s) := by
  simp only [step, hget]

theorem get?_step_on (s : Session) (name : String) (action : Action) :
    (s.step (.on name action)).2.opened.get? name =
      (s.opened.get? name).bind fun opened => opened.after action := by
  cases hget : s.opened.get? name with
  | none =>
    rw [step_on_of_none hget]
    exact hget
  | some opened =>
    rw [step_on hget]
    exact get?_act_self hget action

theorem step_status_snd (s : Session) (path : Bytes) :
    (s.step (.status path)).2 =
      { s with host := (OpenFile.status s.tree.find path s.host).2 } := by
  rw [← access_snd s false]
  unfold step
  dsimp only
  split <;> simp [*]

theorem step_readWhole_snd (s : Session) (path : Bytes) (policy : MissingPolicy)
    (inBackground : Bool) :
    (s.step (.readWhole path policy inBackground)).2 =
      { s with host := (FileAccess.readWhole s.tree.find path policy s.host).2 } := by
  rw [← access_snd s inBackground]
  unfold step
  dsimp only
  split <;> simp [*]

/-- A step that speaks of no name leaves everything opened alone. -/
theorem step_opened_of_subject?_eq_none {step : Step} (h : step.subject? = none) (s : Session) :
    (s.step step).2.opened = s.opened := by
  cases step with
  | openLines name path request inBackground => cases h
  | on name action => cases h
  | newPreferences name origin =>
    show (s.preferencesOf origin).2.opened = s.opened
    rw [preferencesOf_snd]
  | status path => rw [step_status_snd]
  | readWhole path policy inBackground => rw [step_readWhole_snd]
  | _ =>
    unfold Session.step
    dsimp only
    repeat' split
    all_goals rfl

theorem get?_step_of_ne {step : Step} (h : step.subject? ≠ some other) (s : Session) :
    (s.step step).2.opened.get? other = s.opened.get? other := by
  by_cases hnone : step.subject? = none
  · rw [step_opened_of_subject?_eq_none hnone]
  · cases step with
    | openLines name path request inBackground =>
      have hne : other ≠ name := fun heq => h (congrArg some heq.symm)
      rcases hattempt : s.attemptLines path request with ⟨result, host⟩
      cases result with
      | ok opened =>
        rw [step_openLines_of_ok hattempt]
        exact get?_storeOpened_of_ne hne _ opened
      | error e => rw [step_openLines_of_error hattempt]
    | on name action =>
      have hne : other ≠ name := fun heq => h (congrArg some heq.symm)
      cases hget : s.opened.get? name with
      | none => rw [step_on_of_none hget]
      | some opened =>
        rw [step_on hget]
        exact get?_act_of_ne hne hget action
    | _ => exact absurd rfl hnone

end Session

end FileAccess
