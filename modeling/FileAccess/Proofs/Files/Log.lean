/-
  FileAccess/Proofs/Files/Log.lean
  ================================
  **What an operation on a file tells.**

  Nothing is told where the open fails, whatever a policy makes of the failure.  Where it
  succeeds, reading whole tells of the reading, and opening for lines tells of the
  buffering or of the mapping.  Reading and buffering are told before they are tried, so
  they are told of a directory too; mapping is told when it has been done.  An open of
  which there is no report has failed, and nothing is told of it.  For each
  operation this file says the records by the size that the open reports, and the log
  after the operation is the log before it with these records at the end.
-/
import FileAccess.Proofs.Files.Outcomes

namespace FileAccess

/-! ### What is to be told -/

/-- The size that opening a path reports, if the path can be opened. -/
def reportedSize? (lookup : Lookup) (path : Bytes) (host : Host) : Option Nat :=
  (OpenFile.acquire lookup path host).1.toOption.map OpenFile.size

/-- What reading a path whole tells: nothing, or the size that is about to be read. -/
def readTells (lookup : Lookup) (path : Bytes) (host : Host) : List LogRecord :=
  match reportedSize? lookup path host with
  | none => []
  | some size => [.reading path size]

/-- What opening a path for its lines tells.  A size below the threshold is told before
    the file is read, and any other size if the open has `succeeded`. -/
def openTells (lookup : Lookup) (path : Bytes) (threshold : Nat) (succeeded : Bool)
    (host : Host) : List LogRecord :=
  match reportedSize? lookup path host with
  | none => []
  | some size =>
    if size < threshold then [.buffering path size]
    else if succeeded then [.mapped path size]
    else []

section Opening

variable {lookup : Lookup} {path : Bytes}

theorem Finds.reportedSize?_eq {target : Target} {report : Stat}
    (h : Finds lookup path target report) (host : Host) :
    reportedSize? lookup path host = some report.size := by
  rw [reportedSize?, OpenFile.acquire_apply h]
  rfl

/-- What an open reports does not depend on what is held. -/
theorem reportedSize?_congr (lookup : Lookup) (path : Bytes) (host host' : Host) :
    reportedSize? lookup path host' = reportedSize? lookup path host := by
  rcases OpenFile.acquire_fails_or_finds lookup path with ⟨e, hfails⟩ | ⟨target, report, hfinds⟩
  · rw [reportedSize?, reportedSize?, (hfails host).1, (hfails host').1]
  · rw [hfinds.reportedSize?_eq, hfinds.reportedSize?_eq]

theorem openTells_congr (lookup : Lookup) (path : Bytes) (threshold : Nat) (succeeded : Bool)
    (host host' : Host) :
    openTells lookup path threshold succeeded host' =
      openTells lookup path threshold succeeded host := by
  rw [openTells, openTells, reportedSize?_congr lookup path host host']

theorem reportedSize?_eq_none_iff (host : Host) :
    reportedSize? lookup path host = none ↔
      ∃ e, (OpenFile.acquire lookup path host).1 = .error e := by
  rw [reportedSize?, Option.map_eq_none_iff]
  cases (OpenFile.acquire lookup path host).1 with
  | ok file => simp [Except.toOption]
  | error e => simp [Except.toOption]

/-! ### What is told -/

theorem OpenFile.status_log (lookup : Lookup) (path : Bytes) (host : Host) :
    (status lookup path host).2.log = host.log := by
  rcases acquire_fails_or_finds lookup path with ⟨e, hfails⟩ | ⟨target, report, hfinds⟩
  · obtain ⟨he, hspares⟩ := hfails host
    rw [status_of_error he, hspares.log_eq]
  · rw [status_found hfinds]
    rfl

theorem readWhole_log (lookup : Lookup) (path : Bytes) (policy : MissingPolicy) (host : Host) :
    (readWhole lookup path policy host).2.log = host.log ++ readTells lookup path host := by
  rcases OpenFile.acquire_fails_or_finds lookup path with ⟨e, hfails⟩ | ⟨target, report, hfinds⟩
  · have he := (hfails host).1
    have hnone := (reportedSize?_eq_none_iff host).2 ⟨e, he⟩
    rw [(readWhole_spares he policy).log_eq, readTells, hnone, List.append_nil]
  · rw [readTells, hfinds.reportedSize?_eq, readWhole_found hfinds]

theorem openLines_log (lookup : Lookup) (path : Bytes) (options : LineOptions) (host : Host) :
    (openLines lookup path options host).2.log =
      host.log ++ openTells lookup path options.threshold
        (openLines lookup path options host).1.isOk host := by
  rcases OpenFile.acquire_fails_or_finds lookup path with ⟨e, hfails⟩ | ⟨target, report, hfinds⟩
  · have he := (hfails host).1
    have hnone := (reportedSize?_eq_none_iff host).2 ⟨e, he⟩
    rw [(openLines_spares he options).1.log_eq, openTells, hnone, List.append_nil]
  · rw [openTells, hfinds.reportedSize?_eq]
    cases hfetch : (Purpose.lines options.threshold).fetch path target report.size with
    | error e =>
      rw [openLines_failed hfinds hfetch]
      rfl
    | ok content =>
      dsimp only
      by_cases hlt : report.size < options.threshold
      · rw [if_pos hlt, openLines_buffered hfinds hlt hfetch]
      · rw [if_neg hlt, openLines_mapped hfinds (Nat.not_lt.1 hlt) hfetch]
        rfl

/-- The one record of an open that gives a source says how the source keeps its bytes, and
    how many there are. -/
theorem openTells_of_source {options : LineOptions} {host host' : Host} {source : LineSource}
    (h : openLines lookup path options host = (.ok (.source source), host')) :
    openTells lookup path options.threshold true host =
      [if source.isMapped then .mapped path source.length
        else .buffering path source.length] := by
  obtain ⟨target, report, store, hfinds, hfetch, rfl⟩ := exists_start_of_openLines_eq h
  have hlength : (LineSource.start options report.mtime path store).length = report.size := by
    show store.content.length - 0 = report.size
    rw [Nat.sub_zero, Purpose.length_of_fetch hfinds.stat_eq hfetch]
  obtain ⟨store', _, hlines, _, hmapped, _⟩ := exists_openLines_eq_of_fetch hfinds hfetch host
  obtain rfl : store' = store := by
    rw [hlines] at h
    cases h
    rfl
  have hkept : (LineSource.start options report.mtime path store').isMapped =
      decide (options.threshold ≤ report.size) := hmapped
  rw [openTells, hfinds.reportedSize?_eq, hlength, hkept]
  dsimp only
  by_cases hlt : report.size < options.threshold
  · rw [if_pos hlt, decide_eq_false (Nat.not_le.2 hlt)]
    rfl
  · rw [if_neg hlt, decide_eq_true (Nat.not_lt.1 hlt)]
    rfl

theorem Opened.drop_log (opened : Opened) (host : Host) : (opened.drop host).log = host.log := by
  cases opened with
  | source source =>
    show (source.release host).2.log = host.log
    rw [LineSource.release]
    cases source.store with
    | none => rfl
    | some store => cases store <;> rfl
  | empty => rfl
  | absent => rfl

end Opening

end FileAccess
