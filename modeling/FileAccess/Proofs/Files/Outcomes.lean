/-
  FileAccess/Proofs/Files/Outcomes.lean
  =====================================
  **How reading a file ends, and what it leaves.**

  Every operation on a file opens it first.  The open fails, or it finds something that
  the system reports on and takes a descriptor (`OpenFile.acquire_cases`).  What comes
  after that, for reading the path whole as for opening it for its lines, is one fetch of
  the bytes: the result, the log records, and what became of the descriptor follow from
  it (`readWhole_found`, `openLines_found`).

  The failed opens that a policy speaks of are those of a missing path: one that the
  system is asked for, and of which it says that there is no such entry
  (`acquire_isNotFound_iff`).  Any other failed open leaves at most a descriptor that has
  been closed again (`Spares`).
-/
import FileAccess.Proofs.Lines.Opening
import FileAccess.WholeFile

namespace FileAccess

open Bytes

/-! ### Failed opens -/

/-- The system is asked for the path, and answers that there is no such entry. -/
def IsMissing (lookup : Lookup) (path : Bytes) : Prop :=
  path ≠ [] ∧ nul ∉ path ∧ lookup.target path = .error .noEntry

theorem Finds.not_isMissing {lookup : Lookup} {path : Bytes} {target : Target} {report : Stat}
    (h : Finds lookup path target report) : ¬ IsMissing lookup path := by
  rintro ⟨_, hnul, hmissing⟩
  have hopen := h.open_eq
  rw [Lookup.open?, if_neg (mt List.contains_iff_mem.1 hnul), hmissing] at hopen
  cases hopen

theorem Error.isNotFound_ofOpen (path : Bytes) (activity : Activity) (source : IoError) :
    (Error.ofOpen path activity source).isNotFound = source.isNotFound := by
  unfold ofOpen
  split
  · rename_i hmissing
    rw [hmissing]
    rfl
  · rename_i hmissing
    rw [Bool.not_eq_true] at hmissing
    rw [hmissing]
    split <;> rfl

theorem IoError.isNotFound_system (errno : Errno) :
    (IoError.system errno).isNotFound = true ↔ errno = .noEntry := by
  rw [isNotFound, decide_eq_true_iff]

section Opening

variable {lookup : Lookup} {path : Bytes}

theorem Lookup.open?_isNotFound_iff :
    (∃ source, lookup.open? path = .error source ∧ source.isNotFound = true) ↔
      nul ∉ path ∧ lookup.target path = .error .noEntry := by
  rw [Lookup.open?]
  by_cases hnul : nul ∈ path
  · rw [if_pos (List.contains_iff_mem.2 hnul)]
    constructor
    · rintro ⟨source, hsource, hmissing⟩
      cases hsource
      cases hmissing
    · rintro ⟨hfree, _⟩
      exact absurd hnul hfree
  · rw [if_neg (mt List.contains_iff_mem.1 hnul)]
    cases hlookup : lookup.target path with
    | ok target =>
      constructor
      · rintro ⟨source, hsource, _⟩
        cases hsource
      · rintro ⟨_, hmissing⟩
        cases hmissing
    | error errno =>
      constructor
      · rintro ⟨source, hsource, hmissing⟩
        cases hsource
        exact ⟨hnul, congrArg Except.error ((IoError.isNotFound_system errno).1 hmissing)⟩
      · rintro ⟨_, hmissing⟩
        cases hmissing
        exact ⟨_, rfl, rfl⟩

/-- What a failed open may do to the host: nothing, or a descriptor was taken and closed
    again. -/
def Host.Spares (host host' : Host) : Prop :=
  host' = host ∨ host' = host.passed

theorem Host.Spares.log_eq {host host' : Host} (h : host.Spares host') : host'.log = host.log := by
  rcases h with rfl | rfl <;> rfl

theorem Host.Spares.cells_eq {host host' : Host} (h : host.Spares host') :
    host'.cells = host.cells := by
  rcases h with rfl | rfl <;> rfl

/-- An open fails in the same way whatever is held, or it finds something. -/
theorem OpenFile.acquire_fails_or_finds (lookup : Lookup) (path : Bytes) :
    (∃ e, ∀ host, (acquire lookup path host).1 = .error e ∧
        host.Spares (acquire lookup path host).2) ∨
      ∃ target report, Finds lookup path target report := by
  rcases acquire_cases lookup path with ⟨e, hends⟩ | ⟨errno, hends⟩ | hfinds
  · left
    refine ⟨e, fun host => ?_⟩
    rw [hends host]
    exact ⟨rfl, Or.inl rfl⟩
  · left
    refine ⟨.os path errno.code .stating (.system errno), fun host => ?_⟩
    rw [hends host]
    exact ⟨rfl, Or.inr rfl⟩
  · exact Or.inr hfinds

theorem Finds.acquire_fst_ne_error {target : Target} {report : Stat}
    (h : Finds lookup path target report) (host : Host) (e : Error) :
    (OpenFile.acquire lookup path host).1 ≠ .error e := by
  rw [OpenFile.acquire_apply h]
  nofun

theorem OpenFile.spares_of_fst_eq_error {e : Error} {host : Host}
    (he : (acquire lookup path host).1 = .error e) :
    host.Spares (acquire lookup path host).2 := by
  rcases acquire_fails_or_finds lookup path with ⟨_, hfails⟩ | ⟨target, report, hfinds⟩
  · exact (hfails host).2
  · exact absurd he (hfinds.acquire_fst_ne_error host e)

/-- A failed open of a missing path leaves the host as it was. -/
theorem OpenFile.acquire_of_isNotFound {e : Error} {host : Host}
    (he : (acquire lookup path host).1 = .error e) (hmissing : e.isNotFound = true) :
    acquire lookup path host = (.error e, host) := by
  rcases acquire_cases lookup path with ⟨e', hends⟩ | ⟨errno, hends⟩ | ⟨target, report, hfinds⟩
  · rw [hends host] at he ⊢
    cases he
    rfl
  · rw [hends host] at he
    cases he
    cases hmissing
  · exact absurd he (hfinds.acquire_fst_ne_error host e)

theorem OpenFile.acquire_isNotFound_iff (host : Host) :
    (∃ e, (acquire lookup path host).1 = .error e ∧ e.isNotFound = true) ↔
      IsMissing lookup path := by
  rw [IsMissing, ← Lookup.open?_isNotFound_iff]
  by_cases hpath : path = []
  · subst hpath
    rw [acquire_noPath]
    constructor
    · rintro ⟨e, he, hmissing⟩
      cases he
      cases hmissing
    · rintro ⟨hne, _⟩
      exact absurd rfl hne
  · cases hopen : lookup.open? path with
    | error source =>
      rw [acquire_refused hpath hopen]
      constructor
      · rintro ⟨e, he, hmissing⟩
        cases he
        rw [Error.isNotFound_ofOpen] at hmissing
        exact ⟨hpath, source, rfl, hmissing⟩
      · rintro ⟨_, _, hsource, hmissing⟩
        cases hsource
        refine ⟨_, rfl, ?_⟩
        rw [Error.isNotFound_ofOpen]
        exact hmissing
    | ok target =>
      -- whether there is a report or not, no policy speaks of what was opened
      have hnever : ∀ e, (acquire lookup path host).1 = .error e → e.isNotFound = false := by
        intro e he
        cases hstat : target.stat with
        | error errno =>
          rw [acquire_unreported hpath hopen hstat] at he
          cases he
          rfl
        | ok report => exact absurd he (Finds.acquire_fst_ne_error ⟨hpath, hopen, hstat⟩ host e)
      constructor
      · rintro ⟨e, he, hmissing⟩
        rw [hnever e he] at hmissing
        cases hmissing
      · rintro ⟨_, source, hsource, _⟩
        cases hsource

theorem OpenFile.status_of_error {e : Error} {host : Host}
    (he : (acquire lookup path host).1 = .error e) :
    status lookup path host = (.error e, (acquire lookup path host).2) := by
  rw [status, Operation.bind_apply]
  rcases hacquire : acquire lookup path host with ⟨result, host'⟩
  rw [hacquire] at he
  obtain rfl : result = .error e := he
  rfl

theorem OpenFile.status_found {target : Target} {report : Stat}
    (h : Finds lookup path target report) (host : Host) :
    status lookup path host = (.ok ⟨report.size, report.mtime, path⟩, host.passed) := by
  rw [status, Operation.bind_apply, acquire_apply h]
  rfl

end Opening

/-! ### Policies -/

namespace MissingPolicy

variable {α : Type} {e : Error}

theorem resolve_of_not_isNotFound (policy : MissingPolicy) (h : e.isNotFound = false) :
    policy.resolve (.error e : Except Error α) = .error e := by
  unfold resolve
  dsimp only
  rw [h]
  rfl

theorem resolve_of_isNotFound (policy : MissingPolicy) (h : e.isNotFound = true) :
    policy.resolve (.error e : Except Error α) =
      match policy with
      | .raise => .error e
      | .empty => .ok .empty
      | .absent => .ok .absent := by
  unfold resolve
  dsimp only
  rw [h]
  cases policy <;> rfl

end MissingPolicy

section Whole

variable {lookup : Lookup} {path : Bytes}

/-! ### Reading whole -/

/-- Reading whole is opening, then asking the policy, then reading what was found. -/
theorem readWhole_eq_of_acquire (lookup : Lookup) (path : Bytes) (policy : MissingPolicy)
    (host : Host) :
    readWhole lookup path policy host =
      match policy.resolve (OpenFile.acquire lookup path host).1 with
      | .error e => (.error e, (OpenFile.acquire lookup path host).2)
      | .ok .empty => (.ok (some []), (OpenFile.acquire lookup path host).2)
      | .ok .absent => (.ok none, (OpenFile.acquire lookup path host).2)
      | .ok (.found file) =>
        (file.content.map some,
          { (OpenFile.acquire lookup path host).2 with
            closed := (OpenFile.acquire lookup path host).2.closed ++ [file.descriptor]
            log := (OpenFile.acquire lookup path host).2.log ++ [.reading file.path file.size] }) := by
  rw [readWhole, Operation.bind_apply, Operation.attempt_apply]
  simp only [Operation.bind_apply, Operation.liftExcept_apply]
  cases policy.resolve (OpenFile.acquire lookup path host).1 with
  | error e => rfl
  | ok outcome =>
    cases outcome with
    | found file =>
      simp only [Operation.bind_apply, OpenFile.readAndClose, Operation.liftExcept_apply]
      cases file.content <;> rfl
    | empty => rfl
    | absent => rfl

section Found

variable {target : Target} {report : Stat} (h : Finds lookup path target report)
include h

/-- What is found is read, whatever the policy says, and its descriptor is closed. -/
theorem readWhole_found (policy : MissingPolicy) (host : Host) :
    readWhole lookup path policy host =
      ((Purpose.whole.fetch path target report.size).map some,
        { host.passed with log := host.log ++ [.reading path report.size] }) := by
  rw [readWhole_eq_of_acquire, OpenFile.acquire_apply h]
  rfl

/-- What is found is fetched, whatever the policy says.  Its descriptor is closed, unless the
    bytes are mapped. -/
theorem openLines_found (options : LineOptions) (host : Host) :
    openLines lookup path options host =
      match (Purpose.lines options.threshold).fetch path target report.size with
      | .error e =>
        (.error e,
          { host.passed with
            log := host.log ++
              if report.size < options.threshold then [.buffering path report.size] else [] })
      | .ok content =>
        if report.size < options.threshold then
          (.ok (.source (.start options report.mtime path (.buffered content))),
            { host.passed with log := host.log ++ [.buffering path report.size] })
        else
          (.ok (.source (.start options report.mtime path (.mapped content host.issued))),
            { host with
              issued := host.issued + 1
              log := host.log ++ [.mapped path report.size] }) := by
  cases hfetch : (Purpose.lines options.threshold).fetch path target report.size with
  | error e => exact openLines_failed h hfetch host
  | ok content =>
    by_cases hlt : report.size < options.threshold
    · rw [openLines_buffered h hlt hfetch]
      exact (if_pos hlt).symm
    · rw [openLines_mapped h (Nat.not_lt.1 hlt) hfetch]
      exact (if_neg hlt).symm

end Found

/-! ### What a failed open gives -/

section Failed

variable {e : Error} {host : Host}

theorem openLines_refused (he : (OpenFile.acquire lookup path host).1 = .error e)
    (hother : e.isNotFound = false) (options : LineOptions) :
    openLines lookup path options host = (.error e, (OpenFile.acquire lookup path host).2) := by
  rw [openLines_eq_of_acquire, he, MissingPolicy.resolve_of_not_isNotFound _ hother]

theorem readWhole_refused (he : (OpenFile.acquire lookup path host).1 = .error e)
    (hother : e.isNotFound = false) (policy : MissingPolicy) :
    readWhole lookup path policy host = (.error e, (OpenFile.acquire lookup path host).2) := by
  rw [readWhole_eq_of_acquire, he, MissingPolicy.resolve_of_not_isNotFound _ hother]

theorem openLines_missing (he : (OpenFile.acquire lookup path host).1 = .error e)
    (hmissing : e.isNotFound = true) (options : LineOptions) :
    openLines lookup path options host =
      match options.missing with
      | .raise => (.error e, host)
      | .empty => (.ok .empty, host)
      | .absent => (.ok .absent, host) := by
  rw [openLines_eq_of_acquire, OpenFile.acquire_of_isNotFound he hmissing,
    MissingPolicy.resolve_of_isNotFound _ hmissing]
  cases options.missing <;> rfl

theorem readWhole_missing (he : (OpenFile.acquire lookup path host).1 = .error e)
    (hmissing : e.isNotFound = true) (policy : MissingPolicy) :
    readWhole lookup path policy host =
      match policy with
      | .raise => (.error e, host)
      | .empty => (.ok (some []), host)
      | .absent => (.ok none, host) := by
  rw [readWhole_eq_of_acquire, OpenFile.acquire_of_isNotFound he hmissing,
    MissingPolicy.resolve_of_isNotFound _ hmissing]
  cases policy <;> rfl

/-- Where the open fails, whatever the policy makes of it leaves what the open left. -/
theorem readWhole_spares (he : (OpenFile.acquire lookup path host).1 = .error e)
    (policy : MissingPolicy) : host.Spares (readWhole lookup path policy host).2 := by
  cases hmissing : e.isNotFound with
  | false =>
    rw [readWhole_refused he hmissing]
    exact OpenFile.spares_of_fst_eq_error he
  | true =>
    rw [readWhole_missing he hmissing]
    cases policy <;> exact Or.inl rfl

/-- So it is with an open for lines, and its result is no source then. -/
theorem openLines_spares (he : (OpenFile.acquire lookup path host).1 = .error e)
    (options : LineOptions) :
    host.Spares (openLines lookup path options host).2 ∧
      ∀ source, (openLines lookup path options host).1 ≠ .ok (.source source) := by
  cases hmissing : e.isNotFound with
  | false =>
    rw [openLines_refused he hmissing]
    exact ⟨OpenFile.spares_of_fst_eq_error he, nofun⟩
  | true =>
    rw [openLines_missing he hmissing]
    cases options.missing <;> exact ⟨Or.inl rfl, nofun⟩

end Failed

end Whole

end FileAccess
