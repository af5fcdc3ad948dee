/-
  FileAccess/Proofs/Command/DefaultSettings.lean
  ==============================================
  **Reading settings that set nothing is reading none.**

  A program that reads no settings files runs on the standard settings.  One that reads
  them runs the same where no file is named and the default one sets nothing
  (`SetsNothing`): it is not there, it is no regular file, or it can be read and its
  document leaves every setting as it is.  Only `lines` asks for settings, so the other
  commands run the same whatever the default file holds.

  A default file that is there is used, and what keeps it from being loaded ends a run of
  `lines` (`run_lines_of_load_eq_error`).  So it has to be readable: an empty file that may
  not be read sets nothing either, and is a failure where settings are read.
-/
import FileAccess.Proofs.Command.Arguments
import FileAccess.Proofs.Command.Endings

namespace FileAccess

open Bytes

/-! ### A default file that sets nothing -/

namespace Settings

variable {lookup : Lookup} {configHome : Option Bytes} {path : Bytes}

/-- The file at the path can be read, and its document leaves every setting at its standard
    value. -/
def LeavesStandard (lookup : Lookup) (path : Bytes) : Prop :=
  ∃ target content document, lookup.open? path = .ok target ∧
    target.reading.toEnd = .ok content ∧ Utf8.decode? content = some document ∧
    read? document = some standard

/-- If there is a regular file at the default place, it leaves every setting as it is. -/
def SetsNothing (lookup : Lookup) (configHome : Option Bytes) : Prop :=
  ∀ path, defaultPath configHome = some path → lookup.isRegularFile path = true →
    LeavesStandard lookup path

theorem LeavesStandard.load_eq (h : LeavesStandard lookup path) :
    load lookup path = .ok standard := by
  obtain ⟨target, content, document, hopen, hcontent, hdecode, hread⟩ := h
  have htext : readText lookup path = .ok document := by
    simp only [readText, hopen, hcontent, hdecode]
  simp only [load, htext, ofDocument, hread]

theorem loadDefault_of_isRegularFile (hpath : defaultPath configHome = some path)
    (hfile : lookup.isRegularFile path = true) :
    loadDefault lookup configHome = load lookup path := by
  rw [loadDefault, hpath]
  exact if_pos hfile

theorem loadDefault_of_setsNothing (h : SetsNothing lookup configHome) :
    loadDefault lookup configHome = .ok standard := by
  cases hpath : defaultPath configHome with
  | none => rw [loadDefault, hpath]
  | some path =>
    by_cases hfile : lookup.isRegularFile path = true
    · rw [loadDefault_of_isRegularFile hpath hfile]
      exact (h path hpath hfile).load_eq
    · rw [loadDefault, hpath]
      exact if_neg hfile

end Settings

namespace Command

variable {env env' : Environment} {arguments : List Bytes}

/-- Such a default file gives the standard settings, whether it is read or not. -/
theorem settingsFor_of_setsNothing (h : Settings.SetsNothing env.lookup env.configHome) :
    settingsFor env none = .ok Settings.standard := by
  cases hreads : env.readsSettings with
  | false => rw [settingsFor, if_neg (by simp [hreads])]
  | true =>
    rw [settingsFor, if_pos hreads]
    simp only [Settings.loadDefault_of_setsNothing h]
    rfl

/-! ### What a run asks of its environment -/

/-- Beside the lookup, a request depends on its environment through the settings that
    are loaded for it, and only if it asks for lines. -/
theorem serve_congr (hlookup : env.lookup = env'.lookup) (help : Bytes) (request : Request)
    (hsettings : ∀ linesRequest, request = .lines linesRequest →
      settingsFor env linesRequest.settingsFile = settingsFor env' linesRequest.settingsFile) :
    serve env help request = serve env' help request := by
  cases request with
  | version => rfl
  | help => rfl
  | normalize paths => rfl
  | join segments => rfl
  | cat file ignoreMissing => simp only [serve, cat, hlookup]
  | lines linesRequest => simp only [serve, lines, hlookup, hsettings linesRequest rfl]

theorem run_congr {texts : ParserTexts} (hlookup : env.lookup = env'.lookup)
    (hsettings : ∀ request, request? arguments = some (.lines request) →
      settingsFor env request.settingsFile = settingsFor env' request.settingsFile) :
    run env arguments texts = run env' arguments texts := by
  rw [run, run]
  cases hrequest : request? arguments with
  | none => rfl
  | some request =>
    have hserve : serve env (texts.help arguments) request =
        serve env' (texts.help arguments) request := by
      apply serve_congr hlookup
      rintro linesRequest rfl
      exact hsettings linesRequest hrequest
    simp only [hserve]

/-- A regular file at the default place that cannot be loaded ends a run of `lines` that
    names no other. -/
theorem run_lines_of_load_eq_error {path : Bytes} {e : Error} {request : LinesRequest}
    (hreads : env.readsSettings = true) (hpath : Settings.defaultPath env.configHome = some path)
    (hfile : env.lookup.isRegularFile path = true)
    (hload : Settings.load env.lookup path = .error e)
    (hrequest : request? arguments = some (.lines request)) (hnone : request.settingsFile = none)
    (texts : ParserTexts) :
    run env arguments texts = ⟨1, [], (Failure.error none e).text⟩ := by
  have hsettings : settingsFor env request.settingsFile = .error (.error none e) := by
    rw [hnone, settingsFor, if_pos hreads]
    simp only [Settings.loadDefault_of_isRegularFile hpath hfile, hload]
    rfl
  have hserve : serve env (texts.help arguments) (.lines request) {} =
      (.error (.error none e), {}) := by
    simp only [serve, lines, Operation.bind_apply, Operation.liftExcept_apply, hsettings]
  exact run_of_serve_eq_error hrequest hserve

/-- **Where nothing is set, it makes no difference whether settings are read**: not for
    arguments that name no settings file, if the default one sets nothing, and never for
    a command other than `lines`. -/
theorem run_readsSettings (lookup : Lookup) (configHome : Option Bytes) (arguments : List Bytes)
    (texts : ParserTexts) :
    (¬ Gives (ofString "config") arguments → Settings.SetsNothing lookup configHome →
      run ⟨lookup, configHome, true⟩ arguments texts =
        run ⟨lookup, configHome, false⟩ arguments texts) ∧
    (arguments.head? ≠ some (ofString "lines") →
      run ⟨lookup, configHome, true⟩ arguments texts =
        run ⟨lookup, configHome, false⟩ arguments texts) := by
  constructor
  · intro hgives hnothing
    refine run_congr rfl ?_
    intro request hrequest
    rw [(settingsFile_eq_none_iff hrequest).2 hgives]
    exact (settingsFor_of_setsNothing hnothing).trans (settingsFor_of_setsNothing hnothing).symm
  · intro hcommand
    refine run_congr rfl ?_
    intro request hrequest
    obtain ⟨others, _, rfl, _, _⟩ := exists_sorts_of_lines hrequest
    exact absurd rfl hcommand

/-- A file `f`, and what is given in the default place below the directory `h`. -/
def defaultPlace (settings : Node) : Lookup :=
  Tree.find
    ⟨.directory
      [(ofString "f", .file (ofString "a") (.ofSeconds 7)),
        (ofString "h", .directory
          [(ofString "fastfs", .directory [(ofString "config.toml", settings)])])],
      []⟩

def defaultFile (document : String) : Lookup :=
  defaultPlace (.file (ofString document) (.ofSeconds 0))

theorem setsNothing_defaultFile :
    Settings.SetsNothing (defaultFile "# as it is\nstrip_newlines = true\n")
      (some (ofString "h")) := by
  have hdecode : Utf8.decode? (ofString "# as it is\nstrip_newlines = true\n") =
      some "# as it is\nstrip_newlines = true\n" := by
    decide +kernel
  have hread : Settings.read? "# as it is\nstrip_newlines = true\n" = some Settings.standard := by
    decide +kernel
  rintro _ ⟨⟩ _
  exact ⟨_, _, _, rfl, rfl, hdecode, hread⟩

theorem run_readsSettings_defaultFile :
    (run ⟨defaultFile "# as it is\nstrip_newlines = true\n", some (ofString "h"), true⟩
        (["lines", "--missing", "empty", "--", "--config"].map ofString) =
      run ⟨defaultFile "# as it is\nstrip_newlines = true\n", some (ofString "h"), false⟩
        (["lines", "--missing", "empty", "--", "--config"].map ofString)) ∧
      run ⟨defaultFile "no settings", some (ofString "h"), true⟩ (["cat", "f"].map ofString) =
        run ⟨defaultFile "no settings", some (ofString "h"), false⟩ (["cat", "f"].map ofString) ∧
      (run ⟨defaultFile "no settings", some (ofString "h"), true⟩
        (["lines", "f"].map ofString)).code = 1 ∧
      (run ⟨defaultFile "no settings", some (ofString "h"), false⟩
        (["lines", "f"].map ofString)).code = 0 := by
  refine ⟨?_, ?_, by decide +kernel, by decide +kernel⟩
  · exact (run_readsSettings _ _ _ {}).1 (by decide) setsNothing_defaultFile
  · exact (run_readsSettings _ _ _ {}).2 (by decide)

/-- A default file that may not be read.  It is a regular file, and no document can be read
    there that would set anything. -/
def unreadableDefault : Lookup :=
  defaultPlace (.special true (.error ⟨13⟩))

theorem run_readsSettings_unreadableDefault :
    ¬ Gives (ofString "config") (["lines", "f"].map ofString) ∧
      Settings.defaultPath (some (ofString "h")) = some (ofString "h/fastfs/config.toml") ∧
      unreadableDefault.isRegularFile (ofString "h/fastfs/config.toml") = true ∧
      (∀ document, Settings.readText unreadableDefault (ofString "h/fastfs/config.toml") =
        .ok document → Settings.read? document = some Settings.standard) ∧
      run ⟨unreadableDefault, some (ofString "h"), true⟩ (["lines", "f"].map ofString) =
        ⟨1, [], "Error: Configuration error: Failed to read h/fastfs/config.toml: " ++
          "Permission denied (os error 13)\n"⟩ ∧
      run ⟨unreadableDefault, some (ofString "h"), false⟩ (["lines", "f"].map ofString) =
        ⟨0, ofString "a\n", ""⟩ := by
  refine ⟨by decide, by decide +kernel, by decide +kernel, ?_, by decide +kernel,
    by decide +kernel⟩
  intro document hread
  cases hread

end Command

end FileAccess
