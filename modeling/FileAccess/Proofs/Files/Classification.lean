/-
  FileAccess/Proofs/Files/Classification.lean
  ===========================================
  **What an error keeps of the system's report.**

  `Error.reported` is the error that tells all of a report: the path and the number, where
  the number of a missing entry makes it a missing path.  A failed open becomes that error
  for every number but one.  Reports are classified by the condition they stand for, and 22
  stands for a rejected argument, as does an embedded NUL, of which the system is never
  told.  So 22 counts as misuse, and neither number nor path can be asked of the error.
-/
import FileAccess.Proofs.Files.Failures

namespace FileAccess

namespace Error

/-- The error that tells the path and the number the system reported for it. -/
def reported (path : Bytes) (activity : Activity) (errno : Errno) : Error :=
  if errno = .noEntry then .notFound path (.system errno)
  else .os path errno.code activity (.system errno)

section Reports

variable (path : Bytes) (activity : Activity) {errno : Errno}

theorem osCode?_reported (errno : Errno) :
    (reported path activity errno).osCode? = some errno.code := by
  unfold reported
  split <;> rfl

theorem path?_reported (errno : Errno) : (reported path activity errno).path? = some path := by
  unfold reported
  split <;> rfl

theorem reported_ne_usage (errno : Errno) (cause : Misuse) :
    reported path activity errno ≠ .usage cause := by
  unfold reported
  split <;> simp

theorem ofOpen_invalidArgument :
    ofOpen path activity (.system .invalidArgument) =
      .usage (.rejectedPath path (.system .invalidArgument)) :=
  rfl

theorem ofOpen_eq_reported (h : errno ≠ .invalidArgument) :
    ofOpen path activity (.system errno) = reported path activity errno := by
  by_cases hentry : errno = .noEntry
  · rw [reported, if_pos hentry, hentry, ofOpen_noEntry]
  · rw [reported, if_neg hentry, ofOpen_system hentry h]

/-- What holds of the full report, and not of misuse, holds for all numbers but 22. -/
theorem ofOpen_iff {P : Error → Prop} (hreported : P (reported path activity errno))
    (husage : ¬ P (.usage (.rejectedPath path (.system .invalidArgument)))) :
    P (ofOpen path activity (.system errno)) ↔ errno ≠ .invalidArgument := by
  constructor
  · rintro hopen rfl
    exact husage hopen
  · intro hne
    rwa [ofOpen_eq_reported path activity hne]

/-- Misuse comes of the reports that stand for a rejected argument. -/
theorem ofOpen_eq_usage_iff (source : IoError) :
    (∃ cause, ofOpen path activity source = .usage cause) ↔
      source.errno? = some .invalidArgument ∨
        ∃ text, source = .condition .invalidInput text := by
  cases source with
  | system errno =>
    constructor
    · rintro ⟨cause, hcause⟩
      by_cases hargument : errno = .invalidArgument
      · exact Or.inl (congrArg some hargument)
      · rw [ofOpen_eq_reported path activity hargument] at hcause
        exact absurd hcause (reported_ne_usage path activity errno cause)
    · rintro (hnumber | ⟨text, htext⟩)
      · obtain rfl : errno = .invalidArgument := Option.some.inj hnumber
        exact ⟨_, ofOpen_invalidArgument path activity⟩
      · cases htext
  | condition kind text =>
    cases kind <;> simp [ofOpen, ofSystem, IoError.isNotFound, IoError.isInvalidInput,
      IoError.errno?]

/-- **A failed open keeps the system's number and the path, for every number but 22.**  For
    each of the others the error is the full report.  For 22 it is misuse, without number
    or path, and no other number becomes misuse. -/
theorem ofOpen_keeps_iff :
    (∀ errno : Errno,
      (ofOpen path activity (.system errno) = reported path activity errno ↔
        errno ≠ .invalidArgument) ∧
      ((ofOpen path activity (.system errno)).osCode? = some errno.code ↔
        errno ≠ .invalidArgument) ∧
      ((ofOpen path activity (.system errno)).path? = some path ↔ errno ≠ .invalidArgument)) ∧
    ∀ source, (∃ cause, ofOpen path activity source = .usage cause) ↔
      source.errno? = some .invalidArgument ∨
        ∃ text, source = .condition .invalidInput text := by
  refine ⟨?_, ofOpen_eq_usage_iff path activity⟩
  intro errno
  refine ⟨?_, ?_, ?_⟩
  · exact ofOpen_iff (P := fun e => e = reported path activity errno) path activity rfl
      (reported_ne_usage path activity errno _).symm
  · exact ofOpen_iff (P := fun e => e.osCode? = some errno.code) path activity
      (osCode?_reported path activity errno) (by simp [osCode?])
  · exact ofOpen_iff (P := fun e => e.path? = some path) path activity
      (path?_reported path activity errno) (by simp [path?])

end Reports

/-- An open for which the system reports 22 has neither the number nor the path. -/
theorem ofOpen_invalidArgument_ne_reported :
    ofOpen [0x66] (.stated "open") (.system ⟨22⟩) ≠ .os [0x66] 22 (.stated "open") (.system ⟨22⟩) ∧
      (ofOpen [0x66] (.stated "open") (.system ⟨22⟩)).osCode? = none ∧
      (ofOpen [0x66] (.stated "open") (.system ⟨22⟩)).path? = none := by
  refine ⟨?_, rfl, rfl⟩
  rw [show (⟨22⟩ : Errno) = .invalidArgument from rfl, ofOpen_invalidArgument]
  simp

end Error

end FileAccess
