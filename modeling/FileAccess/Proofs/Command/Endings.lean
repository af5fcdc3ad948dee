/-
  FileAccess/Proofs/Command/Endings.lean
  ======================================
  **A run that does not succeed has written nothing.**

  What a command wrote before it failed stays written, so a command must not write as
  long as it can still fail.  Every command is of this shape: first come steps that do
  not write, whatever their result (`Silent`), and then steps that cannot fail
  (`Certain`).  Such a sequence writes nothing where it fails (`FailsSilently`), and the
  rules for sequences follow the order of the steps.
-/
import FileAccess.Command.Run
import FileAccess.Proofs.Command.LinesOutput

namespace FileAccess

open Bytes

namespace Command

/-! ### Steps that do not write, and steps that do not fail -/

section Steps

variable {α β : Type} {operation : Shell α} {next : α → Shell β}

def Silent (operation : Shell α) : Prop :=
  ∀ console, (operation console).2.output = console.output

def Certain (operation : Shell α) : Prop :=
  ∀ console, ∃ a, (operation console).1 = .ok a

/-- Where the operation fails, the output is what it was. -/
def FailsSilently (operation : Shell α) : Prop :=
  ∀ console failure, (operation console).1 = .error failure →
    (operation console).2.output = console.output

theorem Silent.failsSilently (h : Silent operation) : FailsSilently operation := by
  intro console _ _
  exact h console

theorem Certain.failsSilently (h : Certain operation) : FailsSilently operation := by
  intro console failure hfailure
  obtain ⟨a, ha⟩ := h console
  rw [ha] at hfailure
  cases hfailure

/-- After steps that do not write, writing nothing is up to the rest. -/
theorem Silent.bind (h : Silent operation) (hnext : ∀ a, FailsSilently (next a)) :
    FailsSilently (operation >>= next) := by
  intro console failure hfailure
  have houtput := h console
  rw [Operation.bind_apply] at hfailure ⊢
  rcases hoperation : operation console with ⟨result | a, console'⟩
  · rw [hoperation] at houtput
    exact houtput
  · rw [hoperation] at houtput hfailure
    rw [← houtput]
    exact hnext a console' failure hfailure

theorem Certain.bind (h : Certain operation) (hnext : ∀ a, Certain (next a)) :
    Certain (operation >>= next) := by
  intro console
  obtain ⟨a, ha⟩ := h console
  rw [Operation.bind_apply]
  rcases hoperation : operation console with ⟨result | a', console'⟩
  · rw [hoperation] at ha
    cases ha
  · exact hnext a' console'

/-! ### The steps of commands -/

theorem silent_liftExcept (result : Except Failure α) :
    Silent (liftExcept result : Shell α) := by
  intro console
  rw [Operation.liftExcept_apply]

theorem silent_onHost (f : Host → α × Host) : Silent (onHost f) :=
  fun _ => rfl

theorem silent_perform (context : String) (operation : Access α) :
    Silent (perform context operation) :=
  fun _ => rfl

theorem certain_pure (a : α) : Certain (pure a : Shell α) :=
  fun _ => ⟨a, rfl⟩

theorem certain_onHost (f : Host → α × Host) : Certain (onHost f) :=
  fun _ => ⟨_, rfl⟩

theorem certain_write (bytes : Bytes) : Certain (write bytes) :=
  fun _ => ⟨_, rfl⟩

end Steps

/-! ### Commands -/

theorem certain_writeRecords (request : LinesRequest) (reader : Reader) :
    Certain (writeRecords request reader) := by
  apply Certain.bind (certain_onHost _)
  intro mtime
  apply Certain.bind (certain_write _)
  intro _
  apply Certain.bind (certain_write _)
  intro _
  exact certain_onHost _

theorem failsSilently_cat (env : Environment) (file : Bytes) (ignoreMissing : Bool) :
    FailsSilently (cat env file ignoreMissing) := by
  apply Silent.bind (silent_perform _ _)
  intro content
  cases content with
  | none => exact (certain_pure ()).failsSilently
  | some bytes => exact (certain_write bytes).failsSilently

theorem failsSilently_lines (env : Environment) (request : LinesRequest) :
    FailsSilently (lines env request) := by
  apply Silent.bind (silent_liftExcept _)
  intro settings
  apply Silent.bind (silent_onHost _)
  intro preferences
  apply Silent.bind (silent_perform _ _)
  intro opened
  cases opened.reader? with
  | none => exact (certain_pure ()).failsSilently
  | some reader => exact (certain_writeRecords request reader).failsSilently

theorem failsSilently_serve (env : Environment) (help : Bytes) (request : Request) :
    FailsSilently (serve env help request) := by
  cases request with
  | version => exact (certain_write _).failsSilently
  | help => exact (certain_write _).failsSilently
  | normalize paths => exact (certain_write _).failsSilently
  | join segments =>
    apply Silent.bind (silent_liftExcept _)
    intro path
    exact (certain_write _).failsSilently
  | cat file ignoreMissing => exact failsSilently_cat env file ignoreMissing
  | lines request => exact failsSilently_lines env request

/-! ### Runs -/

section Run

variable {env : Environment} {arguments : List Bytes} {texts : ParserTexts} {request : Request}
  {console : Console}

theorem run_of_serve_eq_ok (hrequest : request? arguments = some request)
    (hserve : serve env (texts.help arguments) request {} = (.ok (), console)) :
    run env arguments texts = ⟨0, console.output, ""⟩ := by
  rw [run, hrequest]
  dsimp only
  rw [hserve]

theorem run_of_serve_eq_error {failure : Failure} (hrequest : request? arguments = some request)
    (hserve : serve env (texts.help arguments) request {} = (.error failure, console)) :
    run env arguments texts = ⟨1, [], failure.text⟩ := by
  have houtput : console.output = [] := by
    have hsilent := failsSilently_serve env (texts.help arguments) request {} failure
    rw [hserve] at hsilent
    exact hsilent rfl
  rw [run, hrequest]
  dsimp only
  rw [hserve, ← houtput]

/-- The three ways for a run to end. -/
theorem run_cases (env : Environment) (arguments : List Bytes) (texts : ParserTexts) :
    run env arguments texts = ⟨2, [], texts.rejection arguments⟩ ∨
      (∃ failure : Failure, run env arguments texts = ⟨1, [], failure.text⟩) ∨
      ∃ output, run env arguments texts = ⟨0, output, ""⟩ := by
  cases hrequest : request? arguments with
  | none =>
    left
    rw [run, hrequest]
  | some request =>
    right
    rcases hserve : serve env (texts.help arguments) request {} with ⟨failure | _, console⟩
    · exact Or.inl ⟨failure, run_of_serve_eq_error hrequest hserve⟩
    · exact Or.inr ⟨console.output, run_of_serve_eq_ok hrequest hserve⟩

/-- **A run that does not succeed has written nothing**, whether its arguments were
    rejected or what they ask for failed. -/
theorem output_eq_nil_of_code_ne_zero (env : Environment) (arguments : List Bytes)
    (texts : ParserTexts) (h : (run env arguments texts).code ≠ 0) :
    (run env arguments texts).output = [] := by
  rcases run_cases env arguments texts with hrejected | ⟨failure, hfailed⟩ | ⟨output, hsucceeded⟩
  · rw [hrejected]
  · rw [hfailed]
  · rw [hsucceeded] at h
    exact absurd rfl h

/-- Settings that can be read, and nothing but a directory beside them. -/
def directoriesOnly : Environment where
  lookup := Tree.find
    ⟨.directory [(ofString "c", .file [] (.ofSeconds 0)), (ofString "d", .emptyDirectory)], []⟩
  configHome := none
  readsSettings := true

theorem output_eq_nil_of_code_ne_zero_directory :
    (run directoriesOnly (["lines", "--config", "c", "--show-mtime", "d"].map ofString)).code = 1 ∧
      (run directoriesOnly
        (["lines", "--config", "c", "--show-mtime", "d"].map ofString)).output = [] := by
  have hcode :
      (run directoriesOnly (["lines", "--config", "c", "--show-mtime", "d"].map ofString)).code =
        1 := by
    decide +kernel
  refine ⟨hcode, output_eq_nil_of_code_ne_zero _ _ _ ?_⟩
  rw [hcode]
  exact Nat.one_ne_zero

end Run

end Command

end FileAccess
