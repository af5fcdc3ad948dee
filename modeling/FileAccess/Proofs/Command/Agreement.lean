/-
  FileAccess/Proofs/Command/Agreement.lean
  ========================================
  **`cat` and `lines` agree.**

  `cat` reads its file in one piece, and `lines` cuts it into records and writes these
  one after the other.  Both open it first.  A path leads to a file, or is missing, or is
  of no use for another reason (`Unusable`), and in each of these cases the two commands end
  alike (`CommandsAgree`): for a file in what they write, for a missing path in what the
  options make of it, and otherwise in failing under all options.

  What is of use depends on what is done with it, though.  From the threshold on, `lines`
  maps what `cat` reads, and there are things that can be read and not mapped, such as a
  device.  Of these one command is a success where the other is a failure
  (`AccessesDiffer`), and there is no other case in which their exit codes differ.
-/
import FileAccess.Proofs.Command.Endings
import FileAccess.Proofs.Command.Heading
import FileAccess.Proofs.Command.Spelling
import FileAccess.Proofs.Files.Failures

namespace FileAccess

open Bytes

/-! ### What a path leads to -/

theorem Except.exists_mapError_eq_error_iff {ε ε' α : Type} {f : ε → ε'} {result : Except ε α} :
    (∃ e, result.mapError f = .error e) ↔ ∃ e, result = .error e := by
  simp only [Except.mapError_eq_error_iff]
  constructor
  · rintro ⟨_, e, he, _⟩
    exact ⟨e, he⟩
  · rintro ⟨e, he⟩
    exact ⟨_, e, he, rfl⟩

section Paths

variable {lookup : Lookup} {path content : Bytes} {mtime : Timestamp} {purpose : Purpose}
  {target : Target} {report : Stat} {threshold : Nat}

def LeadsToFile (lookup : Lookup) (path content : Bytes) (mtime : Timestamp) : Prop :=
  path ≠ [] ∧ lookup.open? path = .ok (.file content mtime)

/-- Whatever is found under the path, its bytes cannot be fetched. -/
def FetchesNothing (lookup : Lookup) (path : Bytes) (purpose : Purpose) : Prop :=
  ∀ target report, Finds lookup path target report →
    ∃ e, purpose.fetch path target report.size = .error e

/-- The path is not missing, and still there is nothing to be had: the path is refused, or
    the open fails for another reason, or what it finds cannot be read, or be mapped. -/
def Unusable (lookup : Lookup) (path : Bytes) (purpose : Purpose) : Prop :=
  ¬ IsMissing lookup path ∧ FetchesNothing lookup path purpose

/-- What is found under the path is large enough to be mapped, and it can be read and not
    mapped, or mapped and not read. -/
def AccessesDiffer (lookup : Lookup) (path : Bytes) (threshold : Nat) : Prop :=
  ∃ target report, Finds lookup path target report ∧ threshold ≤ report.size ∧
    ((∃ content, target.reading.exactly report.size = .ok content) ↔
      ∃ errno, target.mapping = .error errno)

theorem Finds.accessesDiffer_iff (h : Finds lookup path target report) :
    AccessesDiffer lookup path threshold ↔
      ((∃ content, Purpose.whole.fetch path target report.size = .ok content) ↔
        ∃ e, (Purpose.lines threshold).fetch path target report.size = .error e) := by
  have hwhole : ¬ Purpose.whole.maps report.size := not_false
  rw [Purpose.fetch_of_not_maps hwhole]
  by_cases hle : threshold ≤ report.size
  · have hmaps : (Purpose.lines threshold).maps report.size := hle
    rw [Purpose.fetch_of_maps hmaps, Except.exists_mapError_eq_error_iff]
    simp only [Except.mapError_eq_ok_iff]
    constructor
    · rintro ⟨target', report', hfinds, _, hdiffer⟩
      obtain ⟨rfl, rfl⟩ := h.unique hfinds
      exact hdiffer
    · intro hdiffer
      exact ⟨target, report, h, hle, hdiffer⟩
  · -- below the threshold the two fetches are one
    have hmaps : ¬ (Purpose.lines threshold).maps report.size := hle
    rw [Purpose.fetch_of_not_maps hmaps]
    constructor
    · rintro ⟨target', report', hfinds, hle', _⟩
      obtain ⟨rfl, rfl⟩ := h.unique hfinds
      exact absurd hle' hle
    · intro hdiffer
      cases hread : (target.reading.exactly report.size).mapError
          (OpenFile.readError path report.size) with
      | ok content =>
        obtain ⟨e, he⟩ := hdiffer.1 ⟨content, hread⟩
        cases hread.symm.trans he
      | error e =>
        obtain ⟨content, hcontent⟩ := hdiffer.2 ⟨e, hread⟩
        cases hread.symm.trans hcontent

/-- Where nothing is fetched, an operation fails, unless the path is missing and the policy
    has another answer to that. -/
theorem EndsAfterOpen.exists_error {α : Type} {policy : MissingPolicy} {host : Host}
    {result : Except Error α} (h : EndsAfterOpen lookup path policy purpose host result)
    (hnothing : FetchesNothing lookup path purpose)
    (hpolicy : IsMissing lookup path → policy = .raise) : ∃ e, result = .error e := by
  rcases OpenFile.acquire_fails_or_finds lookup path with ⟨e, hfails⟩ | ⟨target, report, hfinds⟩
  · refine ⟨e, h.refused e (hfails host).1 ?_⟩
    intro hmissing
    apply hpolicy
    apply (OpenFile.acquire_isNotFound_iff host).1
    exact ⟨e, (hfails host).1, hmissing⟩
  · obtain ⟨e, he⟩ := hnothing target report hfinds
    exact ⟨e, (h.found target report hfinds e).2 he⟩

end Paths

namespace Command

variable {env : Environment} {arguments : List Bytes} {file : Bytes} {ignoreMissing : Bool}
  {request : LinesRequest} {settings : Settings} {content : Bytes} {mtime : Timestamp}
  {texts : ParserTexts} {target : Target} {report : Stat}

/-! ### Runs of `cat` -/

theorem cat_apply (env : Environment) (file : Bytes) (ignoreMissing : Bool) :
    ∃ context host, cat env file ignoreMissing {} =
      match (readWhole env.lookup file (.ignoreOrRaise ignoreMissing) {}).1 with
      | .error e => (.error (.error (some context) e), ⟨host, []⟩)
      | .ok content => (.ok (), ⟨host, content.getD []⟩) := by
  refine ⟨"reading " ++ Utf8.display file,
    (readWhole env.lookup file (.ignoreOrRaise ignoreMissing) {}).2, ?_⟩
  rw [cat, Operation.bind_apply, perform_inBackground_apply]
  cases (readWhole env.lookup file (.ignoreOrRaise ignoreMissing) {}).1 with
  | error e => rfl
  | ok content => cases content <;> rfl

section Cat

variable (hrequest : request? arguments = some (.cat file ignoreMissing))
include hrequest

theorem run_cat_of_ok {content : Option Bytes}
    (hread : (readWhole env.lookup file (.ignoreOrRaise ignoreMissing) {}).1 = .ok content) :
    run env arguments texts = ⟨0, content.getD [], ""⟩ := by
  obtain ⟨context, host, hcat⟩ := cat_apply env file ignoreMissing
  rw [hread] at hcat
  exact run_of_serve_eq_ok hrequest hcat

theorem run_cat_of_fetch (hfinds : Finds env.lookup file target report)
    (hfetch : Purpose.whole.fetch file target report.size = .ok content) :
    run env arguments texts = ⟨0, content, ""⟩ := by
  have hread : (readWhole env.lookup file (.ignoreOrRaise ignoreMissing) {}).1 =
      .ok (some content) := by
    rw [readWhole_found hfinds, hfetch]
    rfl
  exact run_cat_of_ok hrequest hread

theorem run_cat_of_isMissing (hmissing : IsMissing env.lookup file)
    (hignore : ignoreMissing = true) : run env arguments texts = ⟨0, [], ""⟩ := by
  obtain ⟨e, he, hnotFound⟩ := (OpenFile.acquire_isNotFound_iff {}).2 hmissing
  have hread : (readWhole env.lookup file (.ignoreOrRaise ignoreMissing) {}).1 = .ok none := by
    rw [readWhole_missing he hnotFound, hignore]
    rfl
  exact run_cat_of_ok hrequest hread

theorem code_cat_of_fetchesNothing (hnothing : FetchesNothing env.lookup file .whole)
    (hpolicy : IsMissing env.lookup file → ignoreMissing = false) :
    (run env arguments texts).code = 1 := by
  have hends := readWhole_endsAfterOpen env.lookup file (.ignoreOrRaise ignoreMissing) {}
  have hraise : IsMissing env.lookup file → MissingPolicy.ignoreOrRaise ignoreMissing = .raise := by
    intro hmissing
    rw [hpolicy hmissing]
    rfl
  obtain ⟨e, he⟩ := hends.exists_error hnothing hraise
  obtain ⟨context, host, hcat⟩ := cat_apply env file ignoreMissing
  rw [he] at hcat
  rw [run_of_serve_eq_error hrequest hcat]

end Cat

/-! ### Runs of `lines` -/

/-- The arguments are a request for lines, and settings are loaded for it. -/
structure LinesRun (env : Environment) (arguments : List Bytes) (request : LinesRequest)
    (settings : Settings) : Prop where
  requested : request? arguments = some (.lines request)
  loaded : settingsFor env request.settingsFile = .ok settings

/-- Once the settings are loaded, `lines` goes on from the open. -/
theorem exists_lines_eq (hsettings : settingsFor env request.settingsFile = .ok settings) :
    ∃ context options host, options.missing = request.missing ∧
      options.threshold = settings.mapThreshold ∧ lines env request {} =
        match openLines env.lookup request.file options host with
        | (.error e, host) => (.error (.error (some context) e), ⟨host, []⟩)
        | (.ok opened, host) =>
          match opened.reader? with
          | none => (.ok (), ⟨host, []⟩)
          | some reader => writeRecords request reader ⟨host, []⟩ := by
  rcases hpreferences : preferencesFor settings request {} with ⟨preferences, host⟩
  refine ⟨"opening " ++ Utf8.display request.file, lineOptions settings preferences request, host,
    rfl, rfl, ?_⟩
  simp only [lines, Operation.bind_apply, Operation.liftExcept_apply, hsettings, onHost_apply,
    hpreferences, perform_inBackground_apply]
  rcases openLines env.lookup request.file (lineOptions settings preferences request) host with
    ⟨result, host'⟩
  cases result with
  | error e => rfl
  | ok opened => cases opened <;> rfl

/-- There are no records in nothing, and no modification time. -/
theorem writeRecords_empty (request : LinesRequest) (console : Console) :
    writeRecords request .empty console =
      (.ok (), { console with
        output := console.output ++ if request.showMtime then mtimeLine none else [] }) := by
  simp only [writeRecords, Operation.bind_apply, onHost_apply, write_apply, Reader.drain,
    Reader.mtime?, List.flatMap_nil, List.append_nil]
  rfl

namespace LinesRun

variable (h : LinesRun env arguments request settings)
include h

theorem run_of_fetch (hfinds : Finds env.lookup request.file target report)
    (hfetch : (Purpose.lines settings.mapThreshold).fetch request.file target report.size =
      .ok content) :
    run env arguments texts =
      ⟨0, headingOutput request.showMtime (request.mtimeFormat.getD settings.mtimeFormat)
          report.mtime ++
        contentOutput request.keepNewlines content, ""⟩ :=
  run_lines_of_fetch h.loaded hfinds hfetch h.requested texts

theorem run_of_leadsToFile (hfile : LeadsToFile env.lookup request.file content mtime) :
    run env arguments texts =
      ⟨0, headingOutput request.showMtime (request.mtimeFormat.getD settings.mtimeFormat) mtime ++
        contentOutput request.keepNewlines content, ""⟩ :=
  run_lines h.requested h.loaded hfile.1 hfile.2 texts

theorem run_of_absent (hmissing : IsMissing env.lookup request.file)
    (hpolicy : request.missing = .absent) : run env arguments texts = ⟨0, [], ""⟩ := by
  obtain ⟨context, options, host, hsame, _, hlines⟩ := exists_lines_eq h.loaded
  obtain ⟨e, he, hnotFound⟩ := (OpenFile.acquire_isNotFound_iff host).2 hmissing
  rw [openLines_missing he hnotFound, hsame, hpolicy] at hlines
  exact run_of_serve_eq_ok h.requested hlines

theorem run_of_empty (hmissing : IsMissing env.lookup request.file)
    (hpolicy : request.missing = .empty) :
    run env arguments texts = ⟨0, if request.showMtime then mtimeLine none else [], ""⟩ := by
  obtain ⟨context, options, host, hsame, _, hlines⟩ := exists_lines_eq h.loaded
  obtain ⟨e, he, hnotFound⟩ := (OpenFile.acquire_isNotFound_iff host).2 hmissing
  rw [openLines_missing he hnotFound, hsame, hpolicy] at hlines
  have hwritten := hlines.trans (writeRecords_empty request ⟨host, []⟩)
  exact run_of_serve_eq_ok h.requested hwritten

theorem code_of_fetchesNothing
    (hnothing : FetchesNothing env.lookup request.file (.lines settings.mapThreshold))
    (hpolicy : IsMissing env.lookup request.file → request.missing = .raise) :
    (run env arguments texts).code = 1 := by
  obtain ⟨context, options, host, hsame, hthreshold, hlines⟩ := exists_lines_eq h.loaded
  have hends := openLines_endsAfterOpen env.lookup request.file options host
  rw [hsame, hthreshold] at hends
  obtain ⟨e, he⟩ := hends.exists_error hnothing hpolicy
  rcases hopened : openLines env.lookup request.file options host with ⟨result, host'⟩
  rw [hopened] at he hlines
  obtain rfl : result = .error e := he
  rw [run_of_serve_eq_error h.requested hlines]

end LinesRun

/-! ### Exit codes -/

/-- The exit code of a run that has this result. -/
def codeOf {α : Type} : Except Error α → Nat
  | .ok _ => 0
  | .error _ => 1

theorem code_cat_of_finds (hrequest : request? arguments = some (.cat file ignoreMissing))
    (hfinds : Finds env.lookup file target report) :
    (run env arguments texts).code = codeOf (Purpose.whole.fetch file target report.size) := by
  cases hfetch : Purpose.whole.fetch file target report.size with
  | ok content =>
    rw [run_cat_of_fetch hrequest hfinds hfetch]
    rfl
  | error e =>
    have hnothing : FetchesNothing env.lookup file .whole := by
      intro target' report' hfinds'
      obtain ⟨rfl, rfl⟩ := hfinds.unique hfinds'
      exact ⟨e, hfetch⟩
    exact code_cat_of_fetchesNothing hrequest hnothing (absurd · hfinds.not_isMissing)

theorem LinesRun.code_of_finds (h : LinesRun env arguments request settings)
    (hfinds : Finds env.lookup request.file target report) :
    (run env arguments texts).code =
      codeOf ((Purpose.lines settings.mapThreshold).fetch request.file target report.size) := by
  cases hfetch : (Purpose.lines settings.mapThreshold).fetch request.file target report.size with
  | ok content =>
    rw [h.run_of_fetch hfinds hfetch]
    rfl
  | error e =>
    have hnothing : FetchesNothing env.lookup request.file (.lines settings.mapThreshold) := by
      intro target' report' hfinds'
      obtain ⟨rfl, rfl⟩ := hfinds.unique hfinds'
      exact ⟨e, hfetch⟩
    exact h.code_of_fetchesNothing hnothing (absurd · hfinds.not_isMissing)

section Codes

variable {arguments' : List Bytes}
  (hcat : request? arguments = some (.cat request.file false))
  (hlines : LinesRun env arguments' request settings) (hpolicy : request.missing = .raise)
include hcat hlines hpolicy

theorem same_code_of_requests
    (hsame : ¬ AccessesDiffer env.lookup request.file settings.mapThreshold) :
    (run env arguments texts).code = (run env arguments' texts).code := by
  by_cases hfound : ∃ target report, Finds env.lookup request.file target report
  · obtain ⟨target, report, hfinds⟩ := hfound
    rw [hfinds.accessesDiffer_iff] at hsame
    rw [code_cat_of_finds hcat hfinds, hlines.code_of_finds hfinds]
    revert hsame
    cases Purpose.whole.fetch request.file target report.size <;>
      cases (Purpose.lines settings.mapThreshold).fetch request.file target report.size <;>
      simp [codeOf]
  · have hnothing : ∀ purpose, FetchesNothing env.lookup request.file purpose := by
      intro purpose target report hfinds
      exact absurd ⟨target, report, hfinds⟩ hfound
    rw [code_cat_of_fetchesNothing hcat (hnothing _) fun _ => rfl,
      hlines.code_of_fetchesNothing (hnothing _) fun _ => hpolicy]

omit hpolicy in
theorem other_code_of_requests
    (hdiffer : AccessesDiffer env.lookup request.file settings.mapThreshold) :
    (run env arguments texts).code = 0 ∧ (run env arguments' texts).code = 1 ∨
      (run env arguments texts).code = 1 ∧ (run env arguments' texts).code = 0 := by
  obtain ⟨target, report, hfinds, _⟩ := id hdiffer
  rw [hfinds.accessesDiffer_iff] at hdiffer
  rw [code_cat_of_finds hcat hfinds, hlines.code_of_finds hfinds]
  revert hdiffer
  cases Purpose.whole.fetch request.file target report.size <;>
    cases (Purpose.lines settings.mapThreshold).fetch request.file target report.size <;>
    simp [codeOf]

end Codes

theorem same_code_plain_of_settings (hsettings : settingsFor env none = .ok settings)
    (hsame : IsOperand file → ¬ AccessesDiffer env.lookup file settings.mapThreshold) :
    (run env [ofString "cat", file] texts).code = (run env [ofString "lines", file] texts).code := by
  by_cases hoperand : IsOperand file
  · have hcat : request? [ofString "cat", file] = some (.cat file false) := by
      rw [request?_cat, if_pos hoperand]
    have hlines : request? [ofString "lines", file] = some (.lines (.plain file)) := by
      rw [request?_lines, if_pos hoperand]
    exact same_code_of_requests hcat ⟨hlines, hsettings⟩ rfl (hsame hoperand)
  · -- both commands take such an argument for a request for help, or reject it
    have hcat := request?_cat file
    have hlines := request?_lines file
    rw [if_neg hoperand] at hcat hlines
    rw [run, run, hcat, hlines]
    by_cases hasks : asksForHelp file = true
    · rw [if_pos hasks]
      rfl
    · rw [if_neg hasks]

/-! ### Agreement -/

/-- How `cat` and `lines` agree on a file, in an environment, whatever spells the
    requests for it and whatever settings are loaded. -/
structure CommandsAgree (env : Environment) (file : Bytes) (texts : ParserTexts) : Prop where
  /-- Both can be asked for a file whose path is text, with all options. -/
  cat_asked : (Utf8.decode? file).isSome = true → ∀ ignoreMissing,
    ∃ arguments, request? arguments = some (.cat file ignoreMissing)
  lines_asked : (Utf8.decode? file).isSome = true → ∀ request : LinesRequest,
    request.file = file →
    (∀ path, request.settingsFile = some path → (Utf8.decode? path).isSome = true) →
    ∃ arguments, request? arguments = some (.lines request)
  /-- A file is written as it is by `cat`, -/
  cat_file : ∀ {arguments ignoreMissing content mtime},
    request? arguments = some (.cat file ignoreMissing) →
    LeadsToFile env.lookup file content mtime → run env arguments texts = ⟨0, content, ""⟩
  /-- and by `lines` when it keeps newlines. -/
  lines_kept : ∀ {arguments request settings content mtime},
    LinesRun env arguments request settings → request.file = file →
    LeadsToFile env.lookup file content mtime → request.keepNewlines = true →
    request.showMtime = false → run env arguments texts = ⟨0, content, ""⟩
  /-- When they are stripped, an unfinished last line is finished. -/
  lines_stripped : ∀ {arguments request settings content mtime},
    LinesRun env arguments request settings → request.file = file →
    LeadsToFile env.lookup file content mtime → request.keepNewlines = false →
    settings.stripNewlines = true → request.showMtime = false →
    run env arguments texts =
      ⟨0, content ++ if IsUnfinished content then [newline] else [], ""⟩
  /-- To ask for the modification time puts one line in front. -/
  lines_shown : ∀ {arguments arguments' request settings content mtime},
    LinesRun env arguments request settings → request.file = file →
    LeadsToFile env.lookup file content mtime → request.showMtime = false →
    request? arguments' = some (.lines { request with showMtime := true }) →
    ∃ heading, IsHeading heading ∧
      run env arguments' texts = { run env arguments texts with
        output := heading ++ (run env arguments texts).output }
  /-- Whatever is there, the exit codes are the same where a missing path is a failure,
      unless one command can do with it what the other cannot; -/
  same_code : ∀ {arguments arguments' request settings},
    request? arguments = some (.cat file false) →
    LinesRun env arguments' request settings → request.file = file →
    request.missing = .raise → ¬ AccessesDiffer env.lookup file settings.mapThreshold →
    (run env arguments texts).code = (run env arguments' texts).code
  /-- then one succeeds and the other fails. -/
  other_code : ∀ {arguments arguments' request settings},
    request? arguments = some (.cat file false) →
    LinesRun env arguments' request settings → request.file = file →
    AccessesDiffer env.lookup file settings.mapThreshold →
    (run env arguments texts).code = 0 ∧ (run env arguments' texts).code = 1 ∨
      (run env arguments texts).code = 1 ∧ (run env arguments' texts).code = 0
  /-- The codes are the same without any options, also for a file that is no operand. -/
  same_code_plain : ∀ {settings}, settingsFor env none = .ok settings →
    (IsOperand file → ¬ AccessesDiffer env.lookup file settings.mapThreshold) →
    (run env [ofString "cat", file] texts).code = (run env [ofString "lines", file] texts).code
  /-- A missing file is written as nothing by `cat` when it is ignored, -/
  cat_missing : ∀ {arguments}, request? arguments = some (.cat file true) →
    IsMissing env.lookup file → run env arguments texts = ⟨0, [], ""⟩
  /-- and by `lines` when it is absent; -/
  lines_absent : ∀ {arguments request settings},
    LinesRun env arguments request settings → request.file = file →
    IsMissing env.lookup file → request.missing = .absent → run env arguments texts = ⟨0, [], ""⟩
  /-- when it is empty, it has no modification time, and still no content. -/
  lines_empty : ∀ {arguments request settings},
    LinesRun env arguments request settings → request.file = file →
    IsMissing env.lookup file → request.missing = .empty →
    run env arguments texts =
      ⟨0, if request.showMtime then ofString "# mtime none\n" else [], ""⟩
  /-- What cannot be opened or read for another reason makes `cat` fail, -/
  cat_unusable : ∀ {arguments ignoreMissing},
    request? arguments = some (.cat file ignoreMissing) →
    Unusable env.lookup file .whole → (run env arguments texts).code = 1
  /-- and what cannot be opened, read below the threshold or mapped from there on makes
      `lines` fail, whatever the options are. -/
  lines_unusable : ∀ {arguments request settings},
    LinesRun env arguments request settings → request.file = file →
    Unusable env.lookup file (.lines settings.mapThreshold) →
    (run env arguments texts).code = 1

/-- A file `f` whose only line is unfinished, a directory `d`, and nothing else. -/
def fileAndDirectory : Environment where
  lookup := Tree.find
    ⟨.directory
      [(ofString "f", .file (ofString "a") (.ofSeconds 7)), (ofString "d", .emptyDirectory)], []⟩
  configHome := none
  readsSettings := false

/-- The null device, which can be read and not mapped, and settings under which everything
    is mapped. -/
def nullDevice : Environment where
  lookup := Tree.find
    ⟨.directory
      [(ofString "dev", .directory [(ofString "null", .special false (.ok
        { stat := .ok ⟨0, .ofSeconds 0⟩
          reading := ⟨[], none⟩
          mapping := .error .noDevice
          length_mapping := nofun }))]),
        (ofString "c.toml", .file (ofString "mmap_threshold = 0\n") (.ofSeconds 0))],
      []⟩
  configHome := none
  readsSettings := true

end Command

end FileAccess
