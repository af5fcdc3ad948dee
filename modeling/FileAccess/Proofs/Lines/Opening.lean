/-
  FileAccess/Proofs/Lines/Opening.lean
  ====================================
  **Opening a path for its lines.**

  An open finds something that the system reports on (`Finds`), and then its bytes are
  fetched: mapped from the threshold on, and read below it (`Purpose.fetch`).  As many
  bytes are fetched as were reported, or there is an error.  Bytes that were read are
  buffered and the descriptor is closed again; bytes that were mapped stay mapped and the
  descriptor is held.  The source that results stands at the start of the bytes in either
  case, so what it delivers is these bytes cut into records.

  A regular file always gives a source, and its bytes are its content
  (`exists_openLines_eq`).
-/
import FileAccess.Lines.Open
import FileAccess.Proofs.Lines.Delivery

namespace FileAccess

open Bytes

/-! ### What is found, and what is fetched from it -/

/-- The path is opened, and the system reports on what it leads to. -/
structure Finds (lookup : Lookup) (path : Bytes) (target : Target) (report : Stat) : Prop where
  path_ne_nil : path ≠ []
  open_eq : lookup.open? path = .ok target
  stat_eq : target.stat = .ok report

theorem Finds.file {lookup : Lookup} {path content : Bytes} {mtime : Timestamp}
    (hpath : path ≠ []) (hopen : lookup.open? path = .ok (.file content mtime)) :
    Finds lookup path (.file content mtime) ⟨content.length, mtime⟩ :=
  ⟨hpath, hopen, rfl⟩

/-- What is found under a path, and the report on it, are determined. -/
theorem Finds.unique {lookup : Lookup} {path : Bytes} {target target' : Target}
    {report report' : Stat} (h : Finds lookup path target report)
    (h' : Finds lookup path target' report') : target' = target ∧ report' = report := by
  obtain rfl : target = target' := Except.ok.inj (h.open_eq.symm.trans h'.open_eq)
  exact ⟨rfl, Except.ok.inj (h'.stat_eq.symm.trans h.stat_eq)⟩

/-- What a file is opened for: to be read whole, or for its lines, and then mapped if its
    size reaches a threshold. -/
inductive Purpose where
  | whole
  | lines (threshold : Nat)

namespace Purpose

def maps : Purpose → Nat → Prop
  | whole, _ => False
  | lines threshold, size => threshold ≤ size

instance (purpose : Purpose) (size : Nat) : Decidable (purpose.maps size) :=
  match purpose with
  | whole => inferInstanceAs (Decidable False)
  | lines threshold => inferInstanceAs (Decidable (threshold ≤ size))

/-- The bytes of an open file of some size, mapped or read. -/
def fetch (purpose : Purpose) (path : Bytes) (target : Target) (size : Nat) : Except Error Bytes :=
  if purpose.maps size then
    target.mapping.mapError fun errno => .ofSystem path .mapping (.system errno)
  else (target.reading.exactly size).mapError (OpenFile.readError path size)

end Purpose

theorem Reading.exactly_eq_ok_iff {reading : Reading} {n : Nat} {content : Bytes} :
    reading.exactly n = .ok content ↔ n ≤ reading.bytes.length ∧ reading.bytes.take n = content := by
  rw [exactly]
  by_cases hle : n ≤ reading.bytes.length
  · simp [hle]
  · cases reading.error? <;> simp [hle]

/-- A reading that falls short has ended, or has failed. -/
theorem Reading.exactly_eq_error_iff {reading : Reading} {n : Nat} {source : IoError} :
    reading.exactly n = .error source ↔
      reading.bytes.length < n ∧
        (reading.error? = none ∧ source = .unfilled ∨
          ∃ errno, reading.error? = some errno ∧ source = .system errno) := by
  rw [exactly]
  by_cases hle : n ≤ reading.bytes.length
  · simp [hle, Nat.not_lt.2 hle]
  · cases reading.error? <;> simp [hle, Nat.not_le.1 hle, eq_comm]

section MapError

variable {ε ε' α : Type} {f : ε → ε'} {result : Except ε α}

@[simp]
theorem Except.mapError_eq_ok_iff {a : α} : result.mapError f = .ok a ↔ result = .ok a := by
  cases result with
  | error e => exact ⟨nofun, nofun⟩
  | ok b =>
    constructor
    · rintro ⟨⟩
      rfl
    · rintro ⟨⟩
      rfl

theorem Except.mapError_eq_error_iff {e' : ε'} :
    result.mapError f = .error e' ↔ ∃ e, result = .error e ∧ f e = e' := by
  cases result with
  | error e =>
    constructor
    · intro h
      exact ⟨e, rfl, Except.error.inj h⟩
    · rintro ⟨_, ⟨⟩, rfl⟩
      rfl
  | ok b =>
    constructor
    · nofun
    · rintro ⟨_, ⟨⟩, _⟩

end MapError

section Fetch

variable {purpose : Purpose} {path content : Bytes} {target : Target} {report : Stat} {size : Nat}

theorem Purpose.fetch_of_maps (h : purpose.maps size) :
    purpose.fetch path target size =
      target.mapping.mapError fun errno => .ofSystem path .mapping (.system errno) :=
  if_pos h

theorem Purpose.fetch_of_not_maps (h : ¬ purpose.maps size) :
    purpose.fetch path target size =
      (target.reading.exactly size).mapError (OpenFile.readError path size) :=
  if_neg h

theorem Purpose.fetch_of_mapping_eq_error {errno : Errno} (h : purpose.maps size)
    (hmapping : target.mapping = .error errno) :
    purpose.fetch path target size = .error (.ofSystem path .mapping (.system errno)) := by
  rw [fetch_of_maps h, hmapping]
  rfl

theorem Purpose.fetch_of_exactly_eq_error {source : IoError} (h : ¬ purpose.maps size)
    (hread : target.reading.exactly size = .error source) :
    purpose.fetch path target size = .error (OpenFile.readError path size source) := by
  rw [fetch_of_not_maps h, hread]
  rfl

/-- What is fetched is as long as was reported. -/
theorem Purpose.length_of_fetch (hstat : target.stat = .ok report)
    (hfetch : purpose.fetch path target report.size = .ok content) :
    content.length = report.size := by
  by_cases hmaps : purpose.maps report.size
  · rw [fetch_of_maps hmaps, Except.mapError_eq_ok_iff] at hfetch
    exact target.length_mapping report content hstat hfetch
  · rw [fetch_of_not_maps hmaps, Except.mapError_eq_ok_iff, Reading.exactly_eq_ok_iff] at hfetch
    obtain ⟨hle, rfl⟩ := hfetch
    exact List.length_take_of_le hle

theorem Purpose.fetch_file (purpose : Purpose) (path content : Bytes) (mtime : Timestamp) :
    purpose.fetch path (.file content mtime) content.length = .ok content := by
  by_cases hmaps : purpose.maps content.length
  · rw [fetch_of_maps hmaps]
    rfl
  · rw [fetch_of_not_maps hmaps, Except.mapError_eq_ok_iff, Reading.exactly_eq_ok_iff]
    exact ⟨Nat.le_refl _, List.take_length⟩

end Fetch

/-! ### The steps of opening -/

/-- The host after a descriptor has been taken and closed again. -/
def Host.passed (host : Host) : Host :=
  { host with issued := host.issued + 1, closed := host.closed ++ [host.issued] }

section Acquire

variable {lookup : Lookup} {path : Bytes} {target : Target} {report : Stat}

theorem OpenFile.acquire_apply (h : Finds lookup path target report) (host : Host) :
    OpenFile.acquire lookup path host =
      (.ok ⟨host.issued, target, report, h.stat_eq, path⟩,
        { host with issued := host.issued + 1 }) := by
  rcases target with ⟨stat, reading, mapping, hlength⟩
  obtain rfl : stat = .ok report := h.stat_eq
  rw [OpenFile.acquire, if_neg h.path_ne_nil, h.open_eq]
  rfl

/-- Where there is no report on an open file, its descriptor is closed again. -/
theorem OpenFile.acquire_unreported {errno : Errno} (hpath : path ≠ [])
    (hopen : lookup.open? path = .ok target) (hstat : target.stat = .error errno) (host : Host) :
    OpenFile.acquire lookup path host =
      (.error (.os path errno.code .stating (.system errno)), host.passed) := by
  rcases target with ⟨stat, reading, mapping, hlength⟩
  obtain rfl : stat = .error errno := hstat
  rw [OpenFile.acquire, if_neg hpath, hopen]
  rfl

theorem OpenFile.acquire_refused {source : IoError} (hpath : path ≠ [])
    (hopen : lookup.open? path = .error source) (host : Host) :
    OpenFile.acquire lookup path host = (.error (.ofOpen path .opening source), host) := by
  rw [OpenFile.acquire, if_neg hpath, hopen]
  rfl

theorem OpenFile.acquire_noPath (lookup : Lookup) (host : Host) :
    OpenFile.acquire lookup [] host = (.error (.usage .noPath), host) :=
  rfl

/-- The ends of an open: it fails and nothing was taken, or it fails for want of a report,
    or it finds something. -/
theorem OpenFile.acquire_cases (lookup : Lookup) (path : Bytes) :
    (∃ e, ∀ host, acquire lookup path host = (.error e, host)) ∨
      (∃ errno, ∀ host, acquire lookup path host =
        (.error (.os path errno.code .stating (.system errno)), host.passed)) ∨
      ∃ target report, Finds lookup path target report := by
  by_cases hpath : path = []
  · subst hpath
    exact Or.inl ⟨_, acquire_noPath lookup⟩
  · cases hopen : lookup.open? path with
    | error source => exact Or.inl ⟨_, acquire_refused hpath hopen⟩
    | ok target =>
      cases hstat : target.stat with
      | error errno => exact Or.inr (Or.inl ⟨errno, acquire_unreported hpath hopen hstat⟩)
      | ok report => exact Or.inr (Or.inr ⟨target, report, hpath, hopen, hstat⟩)

end Acquire

theorem MissingPolicy.resolve_error_ne_found {α : Type} (policy : MissingPolicy) (e : Error)
    (value : α) : policy.resolve (.error e) ≠ .ok (.found value) := by
  unfold resolve
  cases policy <;> dsimp only <;> split <;> simp

namespace Store

variable {file : OpenFile} {content : Bytes} {threshold : Nat}

theorem not_maps_lines (hlt : file.size < threshold) :
    ¬ (Purpose.lines threshold).maps file.size :=
  Nat.not_le.2 hlt

theorem load_buffered (hlt : file.size < threshold)
    (hfetch : (Purpose.lines threshold).fetch file.path file.target file.size = .ok content)
    (host : Host) :
    load file threshold host =
      (.ok (.buffered content),
        { host with
          closed := host.closed ++ [file.descriptor]
          log := host.log ++ [.buffering file.path file.size] }) := by
  have hcontent : file.content = .ok content := by
    rw [OpenFile.content, ← hfetch, Purpose.fetch_of_not_maps (not_maps_lines hlt)]
  rw [load, if_pos hlt, OpenFile.readAndClose, hcontent]
  rfl

theorem load_mapped (hle : threshold ≤ file.size)
    (hfetch : (Purpose.lines threshold).fetch file.path file.target file.size = .ok content)
    (host : Host) :
    load file threshold host =
      (.ok (.mapped content file.descriptor),
        { host with log := host.log ++ [.mapped file.path file.size] }) := by
  rw [Purpose.fetch_of_maps (show (Purpose.lines threshold).maps file.size from hle),
    Except.mapError_eq_ok_iff] at hfetch
  rw [load, if_neg (Nat.not_lt.2 hle), hfetch]
  rfl

theorem load_failed {e : Error}
    (hfetch : (Purpose.lines threshold).fetch file.path file.target file.size = .error e)
    (host : Host) :
    load file threshold host =
      (.error e,
        { host with
          closed := host.closed ++ [file.descriptor]
          log := host.log ++
            if file.size < threshold then [.buffering file.path file.size] else [] }) := by
  by_cases hlt : file.size < threshold
  · have hcontent : file.content = .error e := by
      rw [OpenFile.content, ← hfetch, Purpose.fetch_of_not_maps (not_maps_lines hlt)]
    rw [load, if_pos hlt, if_pos hlt, OpenFile.readAndClose, hcontent]
    rfl
  · have hle : (Purpose.lines threshold).maps file.size := Nat.not_lt.1 hlt
    rw [Purpose.fetch_of_maps hle] at hfetch
    rw [load, if_neg hlt, if_neg hlt, List.append_nil]
    cases hmapping : file.target.mapping with
    | ok content =>
      rw [hmapping] at hfetch
      cases hfetch
    | error errno =>
      rw [hmapping] at hfetch
      cases hfetch
      rfl

end Store

def LineSource.start (options : LineOptions) (mtime : Timestamp) (path : Bytes) (store : Store) :
    LineSource where
  store := some store
  window := .ofContent store.content
  strips := options.strip
  rawMtime := mtime
  preferences := options.preferences
  path := path

theorem LineSource.reads_start (options : LineOptions) (mtime : Timestamp) (path : Bytes)
    (store : Store) : (start options mtime path store).window.Reads store.content :=
  Window.reads_ofContent store.content

theorem LineSource.ofOpenFile_apply (file : OpenFile) (options : LineOptions) :
    LineSource.ofOpenFile file options =
      LineSource.start options file.mtime file.path <$> Store.load file options.threshold := by
  rw [map_eq_pure_bind]
  rfl

section Open

variable {lookup : Lookup} {path content : Bytes} {mtime : Timestamp}

/-- Opening for lines is opening, then asking the policy, then making a source of what
    was found. -/
theorem openLines_eq_of_acquire (lookup : Lookup) (path : Bytes) (options : LineOptions)
    (host : Host) :
    openLines lookup path options host =
      match options.missing.resolve (OpenFile.acquire lookup path host).1 with
      | .error e => (.error e, (OpenFile.acquire lookup path host).2)
      | .ok .empty => (.ok .empty, (OpenFile.acquire lookup path host).2)
      | .ok .absent => (.ok .absent, (OpenFile.acquire lookup path host).2)
      | .ok (.found file) =>
        (Opened.source <$> LineSource.ofOpenFile file options)
          (OpenFile.acquire lookup path host).2 := by
  rw [openLines, Operation.bind_apply, Operation.attempt_apply]
  simp only [Operation.bind_apply, Operation.liftExcept_apply]
  cases options.missing.resolve (OpenFile.acquire lookup path host).1 with
  | error e => rfl
  | ok outcome =>
    cases outcome with
    | found file =>
      show _ = (Opened.source <$> LineSource.ofOpenFile file options) _
      rw [map_eq_pure_bind]
    | empty => rfl
    | absent => rfl

theorem openLines_apply {target : Target} {report : Stat} (h : Finds lookup path target report)
    (options : LineOptions) (host : Host) :
    openLines lookup path options host =
      (Opened.source <$> LineSource.ofOpenFile
        ⟨host.issued, target, report, h.stat_eq, path⟩ options)
        { host with issued := host.issued + 1 } := by
  rw [openLines_eq_of_acquire, OpenFile.acquire_apply h]
  rfl

section Found

variable {target : Target} {report : Stat} {options : LineOptions}
  (h : Finds lookup path target report)
include h

theorem openLines_buffered (hlt : report.size < options.threshold)
    (hfetch : (Purpose.lines options.threshold).fetch path target report.size = .ok content)
    (host : Host) :
    openLines lookup path options host =
      (.ok (.source (.start options report.mtime path (.buffered content))),
        { host.passed with log := host.log ++ [.buffering path report.size] }) := by
  rw [openLines_apply h, LineSource.ofOpenFile_apply, Operation.map_apply, Operation.map_apply,
    Store.load_buffered hlt hfetch]
  rfl

theorem openLines_mapped (hle : options.threshold ≤ report.size)
    (hfetch : (Purpose.lines options.threshold).fetch path target report.size = .ok content)
    (host : Host) :
    openLines lookup path options host =
      (.ok (.source (.start options report.mtime path (.mapped content host.issued))),
        { host with
          issued := host.issued + 1
          log := host.log ++ [.mapped path report.size] }) := by
  rw [openLines_apply h, LineSource.ofOpenFile_apply, Operation.map_apply, Operation.map_apply,
    Store.load_mapped hle hfetch]
  rfl

theorem openLines_failed {e : Error}
    (hfetch : (Purpose.lines options.threshold).fetch path target report.size = .error e)
    (host : Host) :
    openLines lookup path options host =
      (.error e,
        { host.passed with
          log := host.log ++
            if report.size < options.threshold then [.buffering path report.size] else [] }) := by
  rw [openLines_apply h, LineSource.ofOpenFile_apply, Operation.map_apply, Operation.map_apply,
    Store.load_failed hfetch]
  rfl

/-- Bytes that are fetched give a source at their start, and no preference is changed. -/
theorem exists_openLines_eq_of_fetch
    (hfetch : (Purpose.lines options.threshold).fetch path target report.size = .ok content)
    (host : Host) :
    ∃ store host',
      openLines lookup path options host =
        (.ok (.source (.start options report.mtime path store)), host') ∧
      store.content = content ∧ store.isMapped = decide (options.threshold ≤ report.size) ∧
      host'.cells = host.cells := by
  by_cases hlt : report.size < options.threshold
  · refine ⟨_, _, openLines_buffered h hlt hfetch host, rfl, ?_, rfl⟩
    exact (decide_eq_false (Nat.not_le.2 hlt)).symm
  · have hle := Nat.not_lt.1 hlt
    exact ⟨_, _, openLines_mapped h hle hfetch host, rfl, (decide_eq_true hle).symm, rfl⟩

end Found

/-- A regular file always gives a source at the start of its content. -/
theorem exists_openLines_eq (hpath : path ≠ [])
    (hopen : lookup.open? path = .ok (.file content mtime)) (options : LineOptions)
    (host : Host) :
    ∃ store host',
      openLines lookup path options host =
        (.ok (.source (.start options mtime path store)), host') ∧
      store.content = content ∧ store.isMapped = decide (options.threshold ≤ content.length) ∧
      host'.cells = host.cells :=
  exists_openLines_eq_of_fetch (.file hpath hopen) (Purpose.fetch_file _ path content mtime) host

/-- A source comes from something that was found and fetched. -/
theorem exists_start_of_openLines_eq {options : LineOptions} {host host' : Host}
    {source : LineSource} (h : openLines lookup path options host = (.ok (.source source), host')) :
    ∃ target report store, Finds lookup path target report ∧
      (Purpose.lines options.threshold).fetch path target report.size = .ok store.content ∧
      source = .start options report.mtime path store := by
  have hfailed : ∀ e, (OpenFile.acquire lookup path host).1 ≠ .error e := by
    intro e he
    rw [openLines_eq_of_acquire, he] at h
    cases hresolve : options.missing.resolve (.error e : Except Error OpenFile) with
    | error e' => rw [hresolve] at h; cases h
    | ok outcome =>
      cases outcome with
      | found file => exact options.missing.resolve_error_ne_found e file hresolve
      | empty => rw [hresolve] at h; cases h
      | absent => rw [hresolve] at h; cases h
  rcases OpenFile.acquire_cases lookup path with
    ⟨e, hends⟩ | ⟨errno, hends⟩ | ⟨target, report, hfinds⟩
  · exact absurd (congrArg Prod.fst (hends host)) (hfailed _)
  · exact absurd (congrArg Prod.fst (hends host)) (hfailed _)
  · cases hfetch : (Purpose.lines options.threshold).fetch path target report.size with
    | error e =>
      rw [openLines_failed hfinds hfetch] at h
      cases h
    | ok content =>
      obtain ⟨store, _, hlines, rfl, _⟩ := exists_openLines_eq_of_fetch hfinds hfetch host
      rw [hlines] at h
      cases h
      exact ⟨target, report, store, hfinds, hfetch, rfl⟩

end Open

/-! ### What a source delivers -/

section Source

variable {content : Bytes} {source : LineSource}

theorem LineSource.next_of_store {store : Store} (hstore : source.store = some store) :
    source.next =
      ((source.window.next source.strips).1,
        { source with window := (source.window.next source.strips).2 }) := by
  rw [LineSource.next, hstore]

theorem LineSource.delivers {store : Store} (hstore : source.store = some store)
    (hreads : source.window.Reads content) :
    ∃ source', Delivers LineSource.next source (recordsOf source.strips source.window.ahead)
      source' := by
  obtain ⟨window, hdelivers, _⟩ := hreads.delivers source.strips
  refine ⟨{ source with window := window },
    hdelivers.map (fun window => { source with window := window }) ?_⟩
  intro window
  have hwindow : ({ source with window := window } : LineSource).store = some store := hstore
  exact LineSource.next_of_store hwindow

theorem Lines.delivers (lines : Lines) (hreads : lines.window.Reads content) :
    ∃ lines', Delivers Lines.next lines (recordsOf lines.strips lines.window.ahead) lines' := by
  obtain ⟨window, hdelivers, _⟩ := hreads.delivers lines.strips
  refine ⟨⟨window, lines.strips⟩, hdelivers.map (Lines.mk · lines.strips) ?_⟩
  intro window
  rfl

theorem Lines.drain_fst (lines : Lines) (hreads : lines.window.Reads content) :
    lines.drain.1 = recordsOf lines.strips lines.window.ahead := by
  obtain ⟨window, hdrain, _⟩ := hreads.drain lines.strips
  rw [Lines.drain, hdrain]

/-- Opened with its newlines kept, a file delivers its content cut into records, source
    and iteration alike; that is the only such cut, and its length is known. -/
theorem openLines_delivers_isCut {lookup : Lookup} {path : Bytes} {mtime : Timestamp}
    (hpath : path ≠ []) (hopen : lookup.open? path = .ok (.file content mtime))
    {options : LineOptions} (hstrip : options.strip = false) (host : Host) :
    ∃ source host' records,
      openLines lookup path options host = (.ok (.source source), host') ∧
      (∀ other, IsCut content other ↔ other = records) ∧
      (∀ other, (∃ source', Delivers LineSource.next source other source') ↔ other = records) ∧
      (∀ other, (∃ lines', Delivers Lines.next source.lines other lines') ↔ other = records) ∧
      source.lines.drain.1 = records ∧
      records.length = content.count newline + if IsUnfinished content then 1 else 0 := by
  obtain ⟨store, host', hresult, hcontent, _⟩ := exists_openLines_eq hpath hopen options host
  subst hcontent
  have hreads := LineSource.reads_start options mtime path store
  have hrecords : recordsOf false store.content = recordsOf options.strip store.content := by
    rw [hstrip]
  refine ⟨_, host', recordsOf false store.content, hresult, fun other => isCut_iff, ?_, ?_, ?_,
    length_recordsOf false store.content⟩
  · rw [hrecords]
    exact exists_delivers_iff (LineSource.delivers rfl hreads)
  · rw [hrecords]
    exact exists_delivers_iff (Lines.delivers (LineSource.start ..).lines hreads)
  · rw [hrecords]
    exact Lines.drain_fst (LineSource.start ..).lines hreads

/-- The same regular file under every path. -/
def Lookup.everywhere (content : Bytes) (mtime : Timestamp) : Lookup where
  kind _ := .ok .regular
  target _ := .ok (.file content mtime)

theorem openLines_delivers_isCut_blankLine :
    ∃ source host' records,
      openLines (.everywhere [0x61, newline, newline, 0x62] (.ofSeconds 0)) [0x66]
          ⟨false, .raise, ⟨0⟩, 4⟩ {} = (.ok (.source source), host') ∧
      IsCut [0x61, newline, newline, 0x62] records ∧
      (∃ source', Delivers LineSource.next source records source') ∧ records.length = 3 := by
  obtain ⟨source, host', records, hresult, hcut, hdelivers, _, _, hlength⟩ :=
    openLines_delivers_isCut (show ([0x66] : Bytes) ≠ [] by decide)
      (show (Lookup.everywhere [0x61, newline, newline, 0x62] (.ofSeconds 0)).open? [0x66] = _
        from rfl)
      (show LineOptions.strip ⟨false, .raise, ⟨0⟩, 4⟩ = false from rfl) {}
  exact ⟨source, host', records, hresult, (hcut records).2 rfl, (hdelivers records).2 rfl, hlength⟩

end Source

end FileAccess
