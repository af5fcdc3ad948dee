/-
  FileAccess/Proofs/Session/Log.lean
  ==================================
  **The log of a session.**

  Every step adds to the log what its call tells, and nothing else (`log_step`): reading
  a path whole and opening one for its lines tell what these operations tell, by the size
  that the open reports, the threshold of the request and the answer; every other step
  tells nothing.  Asking for the log takes the records out of it.  So what was taken and
  what is still there are, in order, what the steps of a run tell, one after another
  (`run_start_logInOrder`).
-/
import FileAccess.Proofs.Files.Log
import FileAccess.Proofs.Session.Actions

namespace FileAccess

namespace Session

/-! ### What a step is to tell -/

/-- The threshold of an open: the one of the request, or else that of the settings it
    names, or else the standard one. -/
def thresholdOf (s : Session) (request : OpenRequest) : Nat :=
  request.threshold.getD
    ((request.settings.bind s.settings.get?).getD Settings.standard).mapThreshold

def Answer.isFailure : Answer → Bool
  | .failed _ => true
  | _ => false

/-- The records that an answer hands over, which are not in the log any more. -/
def Answer.taken : Answer → List LogRecord
  | .log handed => handed
  | _ => []

/-- What a step tells. -/
def told (s : Session) : Step → List LogRecord
  | .readWhole path _ _ => readTells s.tree.find path s.host
  | .openLines name path request inBackground =>
    openTells s.tree.find path (s.thresholdOf request)
      (!(s.step (.openLines name path request inBackground)).1.isFailure) s.host
  | _ => []

/-- The level at which a step tells. -/
def Step.logLevel : Step → String
  | .readWhole _ _ _ => "TRACE"
  | _ => "DEBUG"

/-- What each of some steps tells, when they are made one after another. -/
def toldByEach (s : Session) : List Step → List (List LogRecord)
  | [] => []
  | first :: others => s.told first :: (s.step first).2.toldByEach others

variable {s : Session} {name : String} {opened : Opened}

/-! ### Requests and names -/

theorem preferencesOf_log (s : Session) (origin : PreferenceOrigin) :
    (s.preferencesOf origin).2.host.log = s.host.log := by
  unfold preferencesOf
  cases origin with
  | share name => dsimp only; split <;> rfl
  | settings name => dsimp only; split <;> rfl
  | format format => rfl
  | standard => rfl

theorem optionsOf_log (s : Session) (request : OpenRequest) :
    (s.optionsOf request).2.host.log = s.host.log := by
  unfold optionsOf
  dsimp only
  split <;> rfl

theorem optionsOf_threshold (s : Session) (request : OpenRequest) :
    (s.optionsOf request).1.threshold = s.thresholdOf request := by
  unfold optionsOf
  dsimp only
  split <;> rfl

theorem dropName_log (s : Session) (name : String) :
    (s.dropName name).host.log = s.host.log := by
  rw [dropName]
  cases s.opened.get? name with
  | none => rfl
  | some opened => exact opened.drop_log s.host

theorem storeOpened_log (s : Session) (name : String) (opened : Opened) :
    (s.storeOpened name opened).host.log = s.host.log :=
  s.dropName_log name

/-! ### Opening -/

theorem isFailure_openedAnswer (opened : Opened) : (openedAnswer opened).isFailure = false := by
  cases opened <;> rfl

theorem taken_openedAnswer (opened : Opened) : (openedAnswer opened).taken = [] := by
  cases opened <;> rfl

theorem attemptLines_log (s : Session) (path : Bytes) (request : OpenRequest) :
    (s.attemptLines path request).2.log =
      s.host.log ++ openTells s.tree.find path (s.thresholdOf request)
        (s.attemptLines path request).1.isOk s.host := by
  rw [attemptLines, openLines_log, optionsOf_log, optionsOf_threshold]
  rw [openTells_congr s.tree.find path _ _ s.host]

theorem log_step_openLines (s : Session) (name : String) (path : Bytes) (request : OpenRequest)
    (inBackground : Bool) :
    (s.step (.openLines name path request inBackground)).1.taken ++
        (s.step (.openLines name path request inBackground)).2.host.log =
      s.host.log ++ s.told (.openLines name path request inBackground) := by
  have hlog := s.attemptLines_log path request
  rw [told]
  rcases hattempt : s.attemptLines path request with ⟨result, host⟩
  rw [hattempt] at hlog
  cases result with
  | ok opened =>
    rw [step_openLines_of_ok hattempt, taken_openedAnswer, isFailure_openedAnswer,
      storeOpened_log]
    exact hlog
  | error e =>
    rw [step_openLines_of_error hattempt]
    exact hlog

/-! ### Actions -/

theorem taken_act (s : Session) (name : String) (opened : Opened) (action : Action) :
    (s.act name opened action).1.taken = [] := by
  cases action with
  | next asReader => cases opened <;> cases asReader <;> rfl
  | mtime asReader => cases opened <;> cases asReader <;> rfl
  | _ => cases opened <;> rfl

theorem act_log (hget : s.opened.get? name = some opened) (action : Action) :
    (s.act name opened action).2.host.log = s.host.log := by
  rcases act_cases hget action with ⟨_, hact⟩ | ⟨opened', _, hact⟩ | ⟨_, hact⟩
  · rw [hact]
  · rw [hact]
  · rw [hact]
    exact s.dropName_log name

/-! ### Steps -/

/-- **Every step adds to the log what its call tells**, and only asking for the log takes
    anything out of it. -/
theorem log_step (s : Session) (step : Step) :
    (s.step step).1.taken ++ (s.step step).2.host.log = s.host.log ++ s.told step := by
  cases step with
  | openLines name path request inBackground =>
    exact s.log_step_openLines name path request inBackground
  | status path =>
    have htaken : (s.step (.status path)).1.taken = [] := by
      unfold Session.step
      dsimp only
      split <;> rfl
    rw [htaken, step_status_snd]
    show (OpenFile.status s.tree.find path s.host).2.log = s.host.log ++ []
    rw [OpenFile.status_log, List.append_nil]
  | readWhole path policy inBackground =>
    have htaken : (s.step (.readWhole path policy inBackground)).1.taken = [] := by
      unfold Session.step
      dsimp only
      split <;> rfl
    rw [htaken, step_readWhole_snd, told]
    exact readWhole_log _ _ _ _
  | newPreferences name origin =>
    show (s.preferencesOf origin).2.host.log = s.host.log ++ []
    rw [preferencesOf_log, List.append_nil]
  | on name action =>
    show _ = s.host.log ++ []
    rw [List.append_nil]
    cases hget : s.opened.get? name with
    | none =>
      rw [step_on_of_none hget]
      rfl
    | some opened =>
      rw [step_on hget, taken_act, act_log hget]
      rfl
  -- the other steps tell nothing, and the log itself is all that is asked for
  | _ =>
    show _ = s.host.log ++ []
    rw [List.append_nil]
    unfold Session.step
    dsimp only
    repeat' split
    all_goals first | rfl | exact List.append_nil _

theorem log_run (s : Session) (steps : List Step) :
    (s.run steps).1.flatMap Answer.taken ++ (s.run steps).2.host.log =
      s.host.log ++ (s.toldByEach steps).flatten := by
  induction steps generalizing s with
  | nil => exact (List.append_nil _).symm
  | cons first others ih =>
    show (s.step first).1.taken ++ ((s.step first).2.run others).1.flatMap Answer.taken ++
      ((s.step first).2.run others).2.host.log = _
    rw [List.append_assoc, ih, ← List.append_assoc, s.log_step first, List.append_assoc,
      toldByEach, List.flatten_cons]

theorem level_of_mem_told {step : Step} {record : LogRecord} (h : record ∈ s.told step) :
    record.level = step.logLevel := by
  cases step with
  | readWhole path policy inBackground =>
    rw [told, readTells] at h
    split at h
    · cases h
    · rw [List.mem_singleton.1 h]
      rfl
  | openLines name path request inBackground =>
    rw [told, openTells] at h
    split at h
    · cases h
    · split at h
      · rw [List.mem_singleton.1 h]
        rfl
      · split at h
        · rw [List.mem_singleton.1 h]
          rfl
        · cases h
  | _ => cases h

/-- An answer that something was opened as a source goes with one record, which says what
    the answer says. -/
theorem told_of_openedSource {path : Bytes} {request : OpenRequest} {inBackground : Bool}
    {length : Nat} {isMapped : Bool}
    (h : (s.step (.openLines name path request inBackground)).1 =
      .openedSource length isMapped) :
    s.told (.openLines name path request inBackground) =
      [if isMapped then .mapped path length else .buffering path length] := by
  rw [told, h]
  rcases hattempt : s.attemptLines path request with ⟨result, host⟩
  cases result with
  | error e =>
    rw [step_openLines_of_error hattempt] at h
    cases h
  | ok opened =>
    rw [step_openLines_of_ok hattempt] at h
    cases opened with
    | empty => cases h
    | absent => cases h
    | source source =>
      cases h
      have htells := openTells_of_source hattempt
      rw [optionsOf_threshold, openTells_congr s.tree.find path _ _ s.host] at htells
      exact htells

/-- The log over some steps of a session that starts with an empty one. -/
structure LogInOrder (s : Session) (steps : List Step) : Prop where
  /-- What was taken from the log and what is still in it are what the steps told, step by
      step and in order. -/
  log_eq : (s.run steps).1.flatMap Answer.taken ++ (s.run steps).2.host.log =
    (s.toldByEach steps).flatten
  /-- Whenever a step is made, it adds what it tells, and nothing else. -/
  step_log_eq : ∀ before step after, steps = before ++ step :: after →
    ((s.run before).2.step step).1.taken ++ ((s.run before).2.step step).2.host.log =
      (s.run before).2.host.log ++ (s.run before).2.told step
  /-- Reads tell at one level, and opens at another. -/
  level_eq : ∀ before step after, steps = before ++ step :: after →
    ∀ record ∈ (s.run before).2.told step, record.level = step.logLevel
  /-- Whenever an open is answered with a source, the record is of a mapping just if the
      source is mapped, and its number is the length of the source. -/
  told_of_source : ∀ before name path request inBackground after,
    steps = before ++ .openLines name path request inBackground :: after →
      ∀ length isMapped,
        ((s.run before).2.step (.openLines name path request inBackground)).1 =
          .openedSource length isMapped →
        (s.run before).2.told (.openLines name path request inBackground) =
          [if isMapped then .mapped path length else .buffering path length]

/-- **The log of a session is what its calls tell**, call by call and in order. -/
theorem run_start_logInOrder (tree : Tree) (configHome : Option Bytes) (steps : List Step) :
    LogInOrder (start tree configHome) steps := by
  constructor
  case log_eq => exact log_run _ steps
  case step_log_eq =>
    intro before step after _
    exact log_step _ step
  case level_eq =>
    intro before step after _ record hrecord
    exact level_of_mem_told hrecord
  case told_of_source =>
    intro before name path request inBackground after _ length isMapped h
    exact told_of_openedSource h

end Session

end FileAccess
