/-
  FileAccess/Command/Run.lean
  ===========================
  **Running a command line.**

  A command line is read, run, and ends with an exit code: 0 when it succeeded, 1
  when it failed, with the failure on the error output, and 2 when it was rejected.
  What a command wrote before it failed stays written.

  The texts of help and of rejections belong to the argument parser, and a run takes
  them as they are.
-/
import FileAccess.Background
import FileAccess.Command.Failure
import FileAccess.Command.Request
import FileAccess.Lines.Open
import FileAccess.Path.Join
import FileAccess.Settings.Load
import FileAccess.WholeFile

namespace FileAccess

namespace Command

/-- What a command line runs in: what the system says of paths, the user's
    configuration directory, and whether settings files are read at all. -/
structure Environment where
  lookup : Lookup
  configHome : Option Bytes
  readsSettings : Bool

/-- What the argument parser says: the help that a line asks for, and what is wrong with a
    line that is rejected. -/
structure ParserTexts where
  help : List Bytes → Bytes := fun _ => []
  rejection : List Bytes → String := fun _ => ""

structure Console where
  host : Host := {}
  output : Bytes := []

abbrev Shell := Operation Console Failure

structure Ending where
  code : Nat
  output : Bytes
  errorOutput : String
deriving DecidableEq, Repr

def versionText : String :=
  "fastfs 0.1.0"

/-! ### Steps of a command -/

def write (bytes : Bytes) : Shell Unit :=
  modify fun console => { console with output := console.output ++ bytes }

def perform {α : Type} (context : String) (operation : Access α) : Shell α :=
  fun console =>
    let (result, host) := operation console.host
    (result.mapError (.error (some context)), { console with host := host })

def onHost {α : Type} (f : Host → α × Host) : Shell α :=
  modifyGet fun console =>
    let (a, host) := f console.host
    (a, { console with host := host })

/-- The settings of a run: those of the named file, or of the default one.  Where
    settings files are not read, naming one is a failure. -/
def settingsFor (env : Environment) (file : Option Bytes) : Except Failure Settings :=
  if env.readsSettings then
    let loaded :=
      match file with
      | some path => Settings.load env.lookup path
      | none => Settings.loadDefault env.lookup env.configHome
    loaded.mapError (.error none)
  else
    match file with
    | some _ => .error .settingsUnsupported
    | none => .ok Settings.standard

/-! ### Commands -/

def asLine (bytes : Bytes) : Bytes :=
  bytes ++ [Bytes.newline]

def cat (env : Environment) (file : Bytes) (ignoreMissing : Bool) : Shell Unit := do
  let content ← perform ("reading " ++ Utf8.display file)
    (Access.inBackground (readWhole env.lookup file (.ignoreOrRaise ignoreMissing)))
  match content with
  | some bytes => write bytes
  | none => return ()

def mtimeLine (value : Option Timestamp.Value) : Bytes :=
  asLine (Bytes.ofString ("# mtime " ++ (value.map Timestamp.Value.text).getD "none"))

/-- The options with which `lines` opens its file: newlines are stripped unless the
    request keeps them, whatever the settings say. -/
def lineOptions (settings : Settings) (preferences : Preferences) (request : LinesRequest) :
    LineOptions :=
  { settings.lineOptions preferences with
    strip := !request.keepNewlines
    missing := request.missing }

def preferencesFor (settings : Settings) (request : LinesRequest) (host : Host) :
    Preferences × Host :=
  let (preferences, host) := settings.preferences host
  match request.mtimeFormat with
  | none => (preferences, host)
  | some format => (preferences, preferences.setFormat format host)

/-- Write the modification time, if it is asked for, then the records: as they are
    when newlines are kept, and otherwise each with a newline after it. -/
def writeRecords (request : LinesRequest) (reader : Reader) : Shell Unit := do
  let mtime ← onHost fun host => (reader.mtime? host, host)
  write (if request.showMtime then mtimeLine mtime else [])
  let (records, reader) := reader.drain
  write (records.flatMap fun record => if request.keepNewlines then record else asLine record)
  onHost fun host => ((), reader.toOpened.close host)

def lines (env : Environment) (request : LinesRequest) : Shell Unit := do
  let settings ← liftExcept (settingsFor env request.settingsFile)
  let preferences ← onHost (preferencesFor settings request)
  let opened ← perform ("opening " ++ Utf8.display request.file)
    (Access.inBackground
      (openLines env.lookup request.file (lineOptions settings preferences request)))
  match opened.reader? with
  | none => return ()
  | some reader => writeRecords request reader

def serve (env : Environment) (help : Bytes) : Request → Shell Unit
  | .version => write (asLine (Bytes.ofString versionText))
  | .help => write help
  | .normalize paths => write (paths.flatMap fun path => asLine (Path.normalize path))
  | .join segments => do
    let path ← liftExcept ((Path.join segments).mapError (Failure.error none))
    write (asLine path)
  | .cat file ignoreMissing => cat env file ignoreMissing
  | .lines request => lines env request

def run (env : Environment) (arguments : List Bytes) (texts : ParserTexts := {}) : Ending :=
  match request? arguments with
  | none => ⟨2, [], texts.rejection arguments⟩
  | some request =>
    match serve env (texts.help arguments) request {} with
    | (.ok (), console) => ⟨0, console.output, ""⟩
    | (.error failure, console) => ⟨1, console.output, failure.text⟩

end Command

end FileAccess
