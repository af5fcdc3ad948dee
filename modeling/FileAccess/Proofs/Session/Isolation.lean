/-
  FileAccess/Proofs/Session/Isolation.lean
  ========================================
  **Line sources are isolated.**

  A source is opened, and then a session goes on in any way: other sources are opened,
  read and released, also on the same path, files are read whole, and the tree is
  changed.  What the source answers to its own steps is what it would have answered if
  there had been no others (`Isolated`).  The one thing that comes from outside is how
  its modification time is rendered, and that only if a related preference is set.

  The proof runs the two sessions side by side.  A step of the source's own does the same
  in both, and any other step is made in one of them only, where it leaves alone what the
  name stands for (`run_alone`).

  A store keeps the content it was loaded with, whatever becomes of the file.  Systems
  promise as much of a file that is removed or replaced, and of one that is rewritten
  only while it is not mapped.
-/
import FileAccess.Proofs.Session.Descriptors
import FileAccess.Proofs.Session.Sharing

namespace FileAccess

namespace Session

/-! ### The steps of one source -/

/-- The step asks what is opened under the name to do something. -/
def Step.isOwn (name : String) : Step → Bool
  | .on other _ => other == name
  | _ => false

def Step.opens (name : String) : Step → Bool
  | .openLines other _ _ _ => other == name
  | _ => false

def Answer.isFailed : Answer → Bool
  | .failed _ => true
  | _ => false

/-- The answer, less how a modification time is rendered in it. -/
def Answer.captured : Answer → Answer
  | .mtime (some _) => .mtime (some (.seconds 0))
  | .state s => .state { s with mtime := .seconds 0 }
  | answer => answer

/-- The answers to the steps of what is opened under a name. -/
def ownAnswers (name : String) (steps : List Step) (answers : List Answer) : List Answer :=
  ((steps.zip answers).filter fun entry => entry.1.isOwn name).map Prod.snd

/-- Nothing else is opened under the name: every open under it fails. -/
def NeverReplaced (name : String) (steps : List Step) (answers : List Answer) : Prop :=
  ∀ entry ∈ steps.zip answers, entry.1.opens name = true → entry.2.isFailed = true

instance (name : String) (steps : List Step) (answers : List Answer) :
    Decidable (NeverReplaced name steps answers) :=
  inferInstanceAs (Decidable (∀ entry ∈ steps.zip answers, _ → _))

variable {s s' : Session} {name : String} {opened : Opened} {step : Step} {steps : List Step}
  {answer : Answer} {answers : List Answer}

theorem exists_action_of_isOwn (h : step.isOwn name = true) : ∃ action, step = .on name action := by
  cases step with
  | on other action =>
    obtain rfl : other = name := beq_iff_eq.1 h
    exact ⟨action, rfl⟩
  | _ => cases h

theorem ownAnswers_cons_own (h : step.isOwn name = true) :
    ownAnswers name (step :: steps) (answer :: answers) =
      answer :: ownAnswers name steps answers := by
  simp [ownAnswers, h]

theorem ownAnswers_cons_other (h : step.isOwn name = false) :
    ownAnswers name (step :: steps) (answer :: answers) = ownAnswers name steps answers := by
  simp [ownAnswers, h]

/-! ### Answers -/

/-- What an action answers depends on what the name stands for, but for the format that a
    modification time is rendered in. -/
theorem act_fst (s s' : Session) (name : String) (opened : Opened) (action : Action) :
    (s.act name opened action).1.captured = (s'.act name opened action).1.captured ∧
      ((∀ source, opened = .source source → source.mtime s.host = source.mtime s'.host) →
        (s.act name opened action).1 = (s'.act name opened action).1) := by
  cases action with
  | next asReader => cases opened <;> cases asReader <;> exact ⟨rfl, fun _ => rfl⟩
  | mtime asReader =>
    cases opened with
    | source source =>
      have hanswer : ∀ s : Session, (s.act name (.source source) (.mtime asReader)).1 =
          .mtime (some (source.mtime s.host)) := by
        intro s
        cases asReader <;> rfl
      rw [hanswer s, hanswer s']
      refine ⟨rfl, ?_⟩
      intro h
      rw [h source rfl]
    | empty => exact ⟨rfl, fun _ => rfl⟩
    | absent => exact ⟨rfl, fun _ => rfl⟩
  | state =>
    cases opened with
    | source source =>
      refine ⟨rfl, ?_⟩
      intro h
      show Answer.state (stateOf s.host source) = .state (stateOf s'.host source)
      rw [stateOf, stateOf, h source rfl]
    | empty => exact ⟨rfl, fun _ => rfl⟩
    | absent => exact ⟨rfl, fun _ => rfl⟩
  | _ => cases opened <;> exact ⟨rfl, fun _ => rfl⟩

/-! ### Side by side -/

/-- What is under the name is left alone by a step that is not its own and opens nothing
    there. -/
theorem get?_step_other (hother : step.isOwn name = false)
    (hnever : step.opens name = true → (s.step step).1.isFailed = true) :
    (s.step step).2.opened.get? name = s.opened.get? name := by
  by_cases hname : step.subject? = some name
  · cases step with
    | openLines other path request inBackground =>
      obtain rfl : other = name := Option.some.inj hname
      have hfailed := hnever (beq_self_eq_true other)
      rcases hattempt : s.attemptLines path request with ⟨result, host⟩
      cases result with
      | error e => rw [step_openLines_of_error hattempt]
      | ok opened =>
        rw [step_openLines_of_ok hattempt] at hfailed
        cases opened <;> cases hfailed
    | on other action =>
      obtain rfl : other = name := Option.some.inj hname
      cases (beq_self_eq_true other).symm.trans hother
    | _ => cases hname
  · exact get?_step_of_ne hname s

theorem get?_step_own (hsame : s.opened.get? name = s'.opened.get? name) (action : Action) :
    (s.step (.on name action)).2.opened.get? name =
      (s'.step (.on name action)).2.opened.get? name := by
  rw [get?_step_on, get?_step_on, hsame]

theorem step_own_fst (hsame : s.opened.get? name = s'.opened.get? name) (action : Action) :
    (s.step (.on name action)).1.captured = (s'.step (.on name action)).1.captured ∧
      ((∀ source, s.opened.get? name = some (.source source) →
          source.mtime s.host = source.mtime s'.host) →
        (s.step (.on name action)).1 = (s'.step (.on name action)).1) := by
  cases hget : s.opened.get? name with
  | none =>
    rw [step_on_of_none hget, step_on_of_none (hsame.symm.trans hget)]
    exact ⟨rfl, fun _ => rfl⟩
  | some opened =>
    rw [step_on hget, step_on (hsame.symm.trans hget)]
    obtain ⟨hcaptured, hrendered⟩ := act_fst s s' name opened action
    refine ⟨hcaptured, ?_⟩
    intro hmtime
    apply hrendered
    rintro source rfl
    exact hmtime source rfl

theorem NeverReplaced.first (h : NeverReplaced name (step :: steps) (answer :: answers)) :
    step.opens name = true → answer.isFailed = true :=
  h (step, answer) List.mem_cons_self

theorem NeverReplaced.others (h : NeverReplaced name (step :: steps) (answer :: answers)) :
    NeverReplaced name steps answers := by
  intro entry hentry
  exact h entry (List.mem_cons_of_mem _ hentry)

/-- A session with all the steps and one with the source's own steps, side by side. -/
theorem run_alone (hsame : s.opened.get? name = s'.opened.get? name)
    (hnever : NeverReplaced name steps (s.run steps).1) :
    (s.run steps).2.opened.get? name =
        (s'.run (steps.filter (Step.isOwn name))).2.opened.get? name ∧
      (ownAnswers name steps (s.run steps).1).map Answer.captured =
        (s'.run (steps.filter (Step.isOwn name))).1.map Answer.captured := by
  induction steps generalizing s s' with
  | nil => exact ⟨hsame, rfl⟩
  | cons first others ih =>
    cases hown : first.isOwn name with
    | true =>
      obtain ⟨action, rfl⟩ := exists_action_of_isOwn hown
      obtain ⟨hopened, hcaptured⟩ := ih (get?_step_own hsame action) hnever.others
      rw [List.filter_cons_of_pos hown]
      refine ⟨hopened, ?_⟩
      have hfirst := (step_own_fst hsame action).1
      rw [run, ownAnswers_cons_own hown, List.map_cons, hcaptured, hfirst]
      rfl
    | false =>
      have hother := get?_step_other hown hnever.first
      rw [List.filter_cons_of_neg (by simp [hown]), run, ownAnswers_cons_other hown]
      exact ih (hother.trans hsame) hnever.others

/-! ### How a modification time is rendered -/

/-- What a source is under the name renders in this format. -/
def RendersIn (s : Session) (name : String) (f : Timestamp.Format) : Prop :=
  ∀ source, s.opened.get? name = some (.source source) → source.mtime s.host = source.rawMtime.render f

theorem RendersIn.step_on {f : Timestamp.Format} (h : RendersIn s name f) (action : Action) :
    RendersIn (s.step (.on name action)).2 name f := by
  intro source hget
  rw [get?_step_on, Option.bind_eq_some_iff] at hget
  obtain ⟨opened, hget, hafter⟩ := hget
  by_cases hsource : ∃ before, opened = .source before
  · obtain ⟨before, rfl⟩ := hsource
    obtain ⟨window, hwindow⟩ := Opened.exists_window_of_after hafter
    cases hwindow
    have hmtime := h before hget
    rw [LineSource.mtime, Preferences.render] at hmtime ⊢
    rw [Preferences.format_congr (s.step_on_cells name action)]
    exact hmtime
  · obtain rfl := Opened.after_of_not_source (not_exists.1 hsource) hafter
    exact absurd ⟨source, rfl⟩ hsource

theorem Tells.rendersIn {c : Chronicle} {i : Nat} {f : Timestamp.Format} (h : Tells c s)
    (hnumber : ∀ j, c.sources.get? name = some j → j = i) (hshows : c.deeds.Shows i f) :
    RendersIn s name f := by
  intro source hget
  obtain ⟨j, hj⟩ := h.exists_number_of_source hget
  obtain ⟨source', g, hget', hg, hmtime⟩ := h.exists_mtime_eq hj
  obtain rfl := hnumber j hj
  obtain rfl : source' = source := by
    cases hget'.symm.trans hget
    rfl
  rw [hmtime, h.sound.shows_unique hg hshows]

/-- A source that is not replaced keeps its handle as long as there is one. -/
theorem sources_follow_of_never {c : Chronicle} {j : Nat}
    (hnever : step.opens name = true → answer.isFailed = true)
    (hj : (c.follow step answer).sources.get? name = some j) : c.sources.get? name = some j := by
  by_cases hname : step.subject? = some name
  · cases step with
    | openLines other path request inBackground =>
      obtain rfl : other = name := Option.some.inj hname
      have hfailed := hnever (beq_self_eq_true other)
      cases answer with
      | failed e => exact hj
      | _ => cases hfailed
    | on other action =>
      obtain rfl : other = name := Option.some.inj hname
      by_cases haction : action = .release ∨ action = .drop
      · rw [Chronicle.follow_on_end haction] at hj
        cases (Registry.get?_erase_self c.sources other).symm.trans hj
      · rw [Chronicle.follow_on haction] at hj
        exact hj
    | _ => cases hname
  · rw [Chronicle.sources_follow_of_ne hname] at hj
    exact hj

/-- The two sessions side by side, as long as no related preference is set: they render
    alike. -/
theorem run_alone_rendered {c : Chronicle} {i : Nat} {f : Timestamp.Format} (htells : Tells c s)
    (hnumber : ∀ j, c.sources.get? name = some j → j = i) (hi : c.deeds.IsHandle i)
    (hshows : c.deeds.Shows i f) (hsame : s.opened.get? name = s'.opened.get? name)
    (hrenders : RendersIn s' name f) (hnever : NeverReplaced name steps (s.run steps).1)
    (halone : (c.followAll steps (s.run steps).1).deeds.LeavesAlone c.deeds.length i) :
    ownAnswers name steps (s.run steps).1 =
      (s'.run (steps.filter (Step.isOwn name))).1 := by
  induction steps generalizing c s s' with
  | nil => rfl
  | cons first others ih =>
    have hstep := htells.step first
    have hfollow := c.deeds_suffix_follow first (s.step first).1
    have hlater := (c.follow first (s.step first).1).deeds_suffix_followAll others
      ((s.step first).2.run others).1
    have hshown : (c.follow first (s.step first).1).deeds.Shows i f := by
      apply htells.shows_step first hi hshows
      rintro other g j rfl hj hij
      -- the deed is still there when all steps are done, and so is what relates the two
      have hset : (c.follow (.setFormat other g) (s.step (.setFormat other g)).1).deeds.at?
          c.deeds.length = some (.set j g) := by
        rw [Chronicle.follow_setFormat hj]
        exact History.at?_cons_length _ _
      exact halone _ j g (Nat.le_refl _) (History.at?_later hlater hset)
        (hij.later (hfollow.trans hlater))
    have hnumber' : ∀ j, (c.follow first (s.step first).1).sources.get? name = some j → j = i := by
      intro j hj
      exact hnumber j (sources_follow_of_never hnever.first hj)
    have hi' := hi.later hfollow
    have halone' : ((c.follow first (s.step first).1).followAll others
        ((s.step first).2.run others).1).deeds.LeavesAlone
          (c.follow first (s.step first).1).deeds.length i := by
      intro k j g hle hat
      exact halone k j g (Nat.le_trans hfollow.length_le hle) hat
    cases hown : first.isOwn name with
    | true =>
      obtain ⟨action, rfl⟩ := exists_action_of_isOwn hown
      have hanswer : (s.step (.on name action)).1 = (s'.step (.on name action)).1 := by
        apply (step_own_fst hsame action).2
        intro source hget
        rw [htells.rendersIn hnumber hshows source hget, hrenders source (hsame.symm.trans hget)]
      rw [List.filter_cons_of_pos hown, run, ownAnswers_cons_own hown, hanswer,
        ih hstep hnumber' hi' hshown (get?_step_own hsame action) (hrenders.step_on action)
          hnever.others halone']
      rfl
    | false =>
      have hother := get?_step_other hown hnever.first
      rw [List.filter_cons_of_neg (by simp [hown]), run, ownAnswers_cons_other hown]
      exact ih hstep hnumber' hi' hshown (hother.trans hsame) hrenders hnever.others halone'

/-! ### Isolation -/

/-- How what is opened under a name fares while a session goes on with these steps. -/
structure Isolated (c : Chronicle) (s : Session) (name : String) (steps : List Step) : Prop where
  /-- It becomes what its own steps alone make of it. -/
  opened : (s.run steps).2.opened.get? name =
    (s.run (steps.filter (Step.isOwn name))).2.opened.get? name
  /-- Its own steps are answered as if there were no others, but for how a modification
      time is rendered, -/
  captured : (ownAnswers name steps (s.run steps).1).map Answer.captured =
    (s.run (steps.filter (Step.isOwn name))).1.map Answer.captured
  /-- and that is as it would be too, unless a preference is set that is related to the one
      it was opened with. -/
  rendered : ∀ i, c.sources.get? name = some i →
    (c.followAll steps (s.run steps).1).deeds.LeavesAlone c.deeds.length i →
    ownAnswers name steps (s.run steps).1 = (s.run (steps.filter (Step.isOwn name))).1
  /-- As long as it is there, its descriptors are held. -/
  held : ∀ opened, (s.run steps).2.opened.get? name = some opened →
    ∀ d ∈ opened.descriptors, d ∈ (s.run steps).2.host.held

theorem Tells.isolated {c : Chronicle} (htells : Tells c s) (haccounted : s.Accounted)
    (hnever : NeverReplaced name steps (s.run steps).1) : Isolated c s name steps := by
  obtain ⟨hopened, hcaptured⟩ := run_alone rfl hnever
  constructor
  case opened => exact hopened
  case captured => exact hcaptured
  case rendered =>
    intro i hi halone
    have hnumber : ∀ j, c.sources.get? name = some j → j = i := by
      intro j hj
      exact Option.some.inj (hj.symm.trans hi)
    have hhandle := (htells.sources name).1 i hi
    obtain ⟨f, _, hshows⟩ := htells.sound.exists_shows hhandle
    exact run_alone_rendered htells hnumber hhandle hshows rfl (htells.rendersIn hnumber hshows)
      hnever halone
  case held =>
    intro opened hget d hd
    have hlater := (haccounted.run steps).accounted
    exact (hlater.accounts.mem_held_iff d).2 (hlater.owns hget hd)

/-- **What is opened in a session is isolated**, from any moment on, such as the one right
    after its open, as long as nothing else is opened under its name. -/
theorem run_start_isolated (tree : Tree) (configHome : Option Bytes) (before : List Step)
    {name : String} {steps : List Step}
    (hnever : NeverReplaced name steps (((start tree configHome).run before).2.run steps).1) :
    Isolated (Chronicle.followAll {} before ((start tree configHome).run before).1)
      ((start tree configHome).run before).2 name steps :=
  ((tells_start tree configHome).run before).isolated
    ((accounted_start tree configHome).run before).accounted hnever

/-- Two sources on one path, of which the other is released after the file was removed and
    written anew, a failed open under the name, and a preference that is set meanwhile. -/
theorem run_start_isolated_samePath :
    let path : Bytes := [0x66]
    let tree : Tree := ⟨.directory [(path, .file [0x61, 0x0A, 0x62] (.ofSeconds 7))], []⟩
    let mapped : OpenRequest := { preferences := some "p", threshold := some 0 }
    let before : List Step := [.newPreferences "p" .standard, .openLines "x" path mapped false]
    let steps : List Step :=
      [.openLines "y" path mapped true, .on "x" (.next false), .remove path,
        .put path (.file [0x63] (.ofSeconds 9)), .on "y" .release, .on "x" .remaining,
        .openLines "x" [0x67] mapped false, .readWhole path .raise false,
        .setFormat "p" .integer, .on "x" (.mtime false), .on "x" .state]
    NeverReplaced "x" steps (((start tree none).run before).2.run steps).1 ∧
      Isolated (Chronicle.followAll {} before ((start tree none).run before).1)
        ((start tree none).run before).2 "x" steps ∧
      (ownAnswers "x" steps (((start tree none).run before).2.run steps).1).take 3 =
        [.record (some [0x61]), .remaining [0x62], .mtime (some (.seconds 7))] := by
  intro path tree mapped before steps
  have hnever : NeverReplaced "x" steps (((start tree none).run before).2.run steps).1 := by
    decide +kernel
  exact ⟨hnever, run_start_isolated tree none before hnever, by decide +kernel⟩

end Session

end FileAccess
