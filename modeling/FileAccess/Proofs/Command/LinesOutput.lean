/-
  FileAccess/Proofs/Command/LinesOutput.lean
  ==========================================
  **What `lines` writes, and which settings govern it.**

  A run that finds a regular file succeeds, and what it writes is a heading with the
  modification time, where that is asked for, and the content.  The heading is in the
  format of the request, and in that of the settings where the request gives none.

  The content is another matter: the request alone decides whether newlines are kept.
  `governedOutput` is what the settings ask for where the request says nothing.  A run
  writes that, and one newline more exactly when the settings keep newlines, the
  request does not, and the last line is unfinished (`run_lines_eq_governedOutput`).
-/
import FileAccess.Command.Run
import FileAccess.Proofs.Files.Cells

namespace FileAccess

open Bytes

namespace Command

variable {env : Environment} {settings : Settings} {request : LinesRequest}

/-! ### The format in force -/

theorem format_preferencesFor (settings : Settings) (request : LinesRequest) (host : Host) :
    (preferencesFor settings request host).1.format (preferencesFor settings request host).2 =
      request.mtimeFormat.getD settings.mtimeFormat := by
  rw [preferencesFor]
  cases request.mtimeFormat with
  | none => exact Preferences.format_create settings.mtimeFormat host
  | some format =>
    apply Preferences.format_setFormat
    show host.cells.length < (host.cells ++ [settings.mtimeFormat]).length
    rw [List.length_append]
    exact Nat.lt_succ_self host.cells.length

/-! ### The content, written again -/

/-- A content as it is written: as it is when newlines are kept, and otherwise line by
    line, with a newline after each. -/
def contentOutput (keeps : Bool) (content : Bytes) : Bytes :=
  if keeps then content else (recordsOf true content).flatMap asLine

/-- Written line by line, a content is itself again, with its last line finished. -/
theorem flatMap_asLine_recordsOf (content : Bytes) :
    (recordsOf true content).flatMap asLine =
      if IsUnfinished content then content ++ [newline] else content := by
  induction content using lines_induction with
  | nil =>
    rw [recordsOf_nil]
    rfl
  | unended bs hne hfree =>
    have hunfinished : IsUnfinished bs := by
      refine ⟨hne, ?_⟩
      intro hlast
      exact hfree (List.mem_of_getLast? hlast)
    rw [recordsOf_unended true hne hfree, if_pos hunfinished, List.flatMap_singleton]
    rfl
  | ended body rest hbody ih =>
    rw [recordsOf_append_newline true rest hbody, List.flatMap_cons, ih]
    simp only [isUnfinished_append_newline]
    by_cases hrest : IsUnfinished rest
    · rw [if_pos hrest, if_pos hrest, asLine]
      simp
    · rw [if_neg hrest, if_neg hrest, asLine]
      simp

theorem flatMap_recordsOf (keeps : Bool) (content : Bytes) :
    ((recordsOf (!keeps) content).flatMap fun record => if keeps then record else asLine record) =
      contentOutput keeps content := by
  cases keeps with
  | false => rfl
  | true =>
    show (recordsOf false content).flatMap id = content
    rw [List.flatMap_id]
    exact (isCut_recordsOf content).flatten_eq

/-- To keep newlines only when asked to, and not also when they are not to be stripped,
    costs a newline after an unfinished line, and nothing else. -/
theorem contentOutput_eq_append (keeps strips : Bool) (content : Bytes) :
    contentOutput keeps content =
      contentOutput (keeps || !strips) content ++
        if keeps = false ∧ strips = false ∧ IsUnfinished content then [newline] else [] := by
  cases keeps with
  | true =>
    rw [if_neg (by simp), List.append_nil]
    rfl
  | false =>
    cases strips with
    | true =>
      rw [if_neg (by simp), List.append_nil]
      rfl
    | false =>
      show (recordsOf true content).flatMap asLine = content ++ _
      rw [flatMap_asLine_recordsOf]
      by_cases hunfinished : IsUnfinished content
      · rw [if_pos hunfinished, if_pos ⟨rfl, rfl, hunfinished⟩]
      · rw [if_neg hunfinished, if_neg (fun hall => hunfinished hall.2.2), List.append_nil]

/-! ### The steps of a run -/

theorem write_apply (bytes : Bytes) (console : Console) :
    write bytes console = (.ok (), { console with output := console.output ++ bytes }) :=
  rfl

theorem onHost_apply {α : Type} (f : Host → α × Host) (console : Console) :
    onHost f console = (.ok (f console.host).1, { console with host := (f console.host).2 }) :=
  rfl

theorem perform_inBackground_apply {α : Type} (context : String) (operation : Access α)
    (console : Console) :
    perform context (Access.inBackground operation) console =
      ((operation console.host).1.mapError (.error (some context)),
        { console with host := (operation console.host).2 }) :=
  rfl

theorem drain_start (options : LineOptions) (mtime : Timestamp) (path : Bytes) (store : Store) :
    (Reader.source (.start options mtime path store)).drain.1 =
      recordsOf options.strip store.content :=
  Lines.drain_fst (LineSource.start options mtime path store).lines
    (LineSource.reads_start options mtime path store)

/-- The heading of the output for a file modified at `mtime`, if it is asked for. -/
def headingOutput (showMtime : Bool) (format : Timestamp.Format) (mtime : Timestamp) : Bytes :=
  if showMtime then mtimeLine (some (mtime.render format)) else []

/-- The records of a source that has not been read yet are written below the heading. -/
theorem writeRecords_start (request : LinesRequest) {options : LineOptions}
    (hstrip : options.strip = !request.keepNewlines) (mtime : Timestamp) (path : Bytes)
    (store : Store) (console : Console) :
    ∃ host, writeRecords request (.source (.start options mtime path store)) console =
      (.ok (), ⟨host, console.output ++
        headingOutput request.showMtime (options.preferences.format console.host) mtime ++
        contentOutput request.keepNewlines store.content⟩) := by
  simp only [writeRecords, Operation.bind_apply, onHost_apply, write_apply]
  rw [drain_start, hstrip, flatMap_recordsOf]
  exact ⟨_, rfl⟩

section Run

variable {arguments : List Bytes} {content : Bytes} {mtime : Timestamp}

section Fetched

variable {target : Target} {report : Stat}
  (hsettings : settingsFor env request.settingsFile = .ok settings)
  (hfinds : Finds env.lookup request.file target report)
  (hfetch : (Purpose.lines settings.mapThreshold).fetch request.file target report.size =
    .ok content)
include hsettings hfinds hfetch

/-- What is fetched is written below the heading, whatever it was fetched from. -/
theorem lines_apply (console : Console) :
    ∃ host, lines env request console =
      (.ok (), ⟨host, console.output ++
        headingOutput request.showMtime (request.mtimeFormat.getD settings.mtimeFormat)
          report.mtime ++
        contentOutput request.keepNewlines content⟩) := by
  have hformat := format_preferencesFor settings request console.host
  rcases hpreferences : preferencesFor settings request console.host with ⟨preferences, host⟩
  rw [hpreferences] at hformat
  have hoptions : (Purpose.lines (lineOptions settings preferences request).threshold).fetch
      request.file target report.size = .ok content := hfetch
  obtain ⟨store, host', hopened, hcontent, _, hcells⟩ :=
    exists_openLines_eq_of_fetch hfinds hoptions host
  subst hcontent
  have hstrip : (lineOptions settings preferences request).strip = !request.keepNewlines := rfl
  obtain ⟨host'', hwritten⟩ := writeRecords_start request hstrip report.mtime request.file store
    { console with host := host' }
  refine ⟨host'', ?_⟩
  simp only [lines, Operation.bind_apply, Operation.liftExcept_apply, hsettings, onHost_apply,
    hpreferences, perform_inBackground_apply, hopened]
  -- opening changes no preference
  rw [← hformat, ← Preferences.format_congr hcells]
  exact hwritten

theorem run_lines_of_fetch (hrequest : request? arguments = some (.lines request))
    (texts : ParserTexts) :
    run env arguments texts =
      ⟨0, headingOutput request.showMtime (request.mtimeFormat.getD settings.mtimeFormat)
          report.mtime ++
        contentOutput request.keepNewlines content, ""⟩ := by
  obtain ⟨host, hlines⟩ := lines_apply hsettings hfinds hfetch {}
  simp only [run, hrequest, serve, hlines]
  rfl

end Fetched

theorem run_lines (hrequest : request? arguments = some (.lines request))
    (hsettings : settingsFor env request.settingsFile = .ok settings)
    (hfile : request.file ≠ [])
    (hopen : env.lookup.open? request.file = .ok (.file content mtime)) (texts : ParserTexts) :
    run env arguments texts =
      ⟨0, headingOutput request.showMtime (request.mtimeFormat.getD settings.mtimeFormat) mtime ++
        contentOutput request.keepNewlines content, ""⟩ :=
  run_lines_of_fetch hsettings (.file hfile hopen) (Purpose.fetch_file _ _ content mtime)
    hrequest texts

/-- What a run writes when the settings govern whatever the request does not override:
    the heading in their format, and the newlines kept unless they are stripped. -/
def governedOutput (settings : Settings) (request : LinesRequest) (content : Bytes)
    (mtime : Timestamp) : Bytes :=
  headingOutput request.showMtime (request.mtimeFormat.getD settings.mtimeFormat) mtime ++
    contentOutput (request.keepNewlines || !settings.stripNewlines) content

/-- A run of `lines` writes what the settings ask for, but for one newline at the end
    of an unfinished content whose newlines the settings keep and the request does not. -/
theorem run_lines_eq_governedOutput (hrequest : request? arguments = some (.lines request))
    (hsettings : settingsFor env request.settingsFile = .ok settings)
    (hfile : request.file ≠ [])
    (hopen : env.lookup.open? request.file = .ok (.file content mtime)) (texts : ParserTexts) :
    run env arguments texts =
      ⟨0, governedOutput settings request content mtime ++
        if request.keepNewlines = false ∧ settings.stripNewlines = false ∧ IsUnfinished content
          then [newline] else [], ""⟩ := by
  rw [run_lines hrequest hsettings hfile hopen texts, governedOutput, List.append_assoc,
    ← contentOutput_eq_append]

/-- A file whose only line is unfinished, and settings that keep its newlines. -/
def unfinishedLine : Environment where
  lookup := Tree.find
    ⟨.directory
      [(ofString "f", .file (ofString "a") (.ofSeconds 7)),
        (ofString "c",
          .file (ofString "mtime_format = \"integer\"\nstrip_newlines = false\n") (.ofSeconds 0))],
      []⟩
  configHome := none
  readsSettings := true

def keepingNewlines : Settings where
  mtimeFormat := .integer
  stripNewlines := false

theorem settingsFor_unfinishedLine :
    settingsFor unfinishedLine (some (ofString "c")) = .ok keepingNewlines := by
  have hread : (settingsFor unfinishedLine (some (ofString "c"))).toOption =
      some keepingNewlines := by
    decide +kernel
  cases hsettings : settingsFor unfinishedLine (some (ofString "c")) with
  | error failure => rw [hsettings] at hread; cases hread
  | ok settings =>
    rw [hsettings] at hread
    exact congrArg Except.ok (Option.some.inj hread)

theorem run_lines_eq_governedOutput_unfinishedLine :
    ∃ request,
      request? (["lines", "f", "--show-mtime", "--config", "c"].map ofString) =
        some (.lines request) ∧
      settingsFor unfinishedLine request.settingsFile = .ok keepingNewlines ∧
      request.file ≠ [] ∧
      unfinishedLine.lookup.open? request.file = .ok (.file (ofString "a") (.ofSeconds 7)) ∧
      run unfinishedLine (["lines", "f", "--show-mtime", "--config", "c"].map ofString) =
        ⟨0, governedOutput keepingNewlines request (ofString "a") (.ofSeconds 7) ++ [newline], ""⟩ ∧
      governedOutput keepingNewlines request (ofString "a") (.ofSeconds 7) =
        ofString "# mtime 7\na" := by
  have hrequest : request? (["lines", "f", "--show-mtime", "--config", "c"].map ofString) =
      some (.lines ⟨ofString "f", false, .raise, none, true, some (ofString "c")⟩) := by
    decide +kernel
  have hfile : ofString "f" ≠ [] := by decide
  have hunfinished : IsUnfinished (ofString "a") := by decide
  refine ⟨_, hrequest, settingsFor_unfinishedLine, hfile, rfl, ?_, by decide +kernel⟩
  rw [run_lines_eq_governedOutput hrequest settingsFor_unfinishedLine hfile rfl {},
    if_pos ⟨rfl, rfl, hunfinished⟩]

/-- Settings that keep newlines do not govern a run that is not asked to keep them. -/
theorem run_lines_ne_governedOutput :
    ∃ request,
      request? (["lines", "f", "--config", "c"].map ofString) = some (.lines request) ∧
      settingsFor unfinishedLine request.settingsFile = .ok keepingNewlines ∧
      unfinishedLine.lookup.open? request.file = .ok (.file (ofString "a") (.ofSeconds 7)) ∧
      governedOutput keepingNewlines request (ofString "a") (.ofSeconds 7) = ofString "a" ∧
      run unfinishedLine (["lines", "f", "--config", "c"].map ofString) =
        ⟨0, ofString "a\n", ""⟩ ∧
      run unfinishedLine (["lines", "f", "--config", "c", "--keep-newlines"].map ofString) =
        ⟨0, ofString "a", ""⟩ := by
  have hrequest : request? (["lines", "f", "--config", "c"].map ofString) =
      some (.lines ⟨ofString "f", false, .raise, none, false, some (ofString "c")⟩) := by
    decide +kernel
  exact ⟨_, hrequest, settingsFor_unfinishedLine, rfl, by decide +kernel, by decide +kernel,
    by decide +kernel⟩

end Run

end Command

end FileAccess
