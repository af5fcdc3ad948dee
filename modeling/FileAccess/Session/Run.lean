/-
  FileAccess/Session/Run.lean
  ===========================
  **Running a session.**

  `Session` is the state of a conversation: the file tree, the host, and what the
  names stand for.  `step` answers one step; `run` answers a list of them.  What a
  name stood for is released when something else is stored under it; a step that
  fails leaves it in place.
-/
import FileAccess.Background
import FileAccess.Session.Registry
import FileAccess.Session.Step
import FileAccess.Settings.Load
import FileAccess.Tree.Edit
import FileAccess.WholeFile

namespace FileAccess

structure Session where
  tree : Tree
  configHome : Option Bytes
  host : Host := {}
  opened : Registry Opened := []
  preferences : Registry Preferences := []
  settings : Registry Settings := []

namespace Session

def start (tree : Tree) (configHome : Option Bytes) : Session :=
  { tree := tree, configHome := configHome }

/-- The session with a name taken away and the life of what it stood for ended. -/
def dropName (s : Session) (name : String) : Session :=
  match s.opened.get? name with
  | none => s
  | some opened => { s with host := opened.drop s.host, opened := s.opened.erase name }

/-- The session with a name taken away and what it stood for released. -/
def closeName (s : Session) (name : String) (opened : Opened) : Session :=
  { s with host := opened.close s.host, opened := s.opened.erase name }

def storeOpened (s : Session) (name : String) (opened : Opened) : Session :=
  let s := s.dropName name
  { s with opened := s.opened.store name opened }

def updateSource (s : Session) (name : String) (source : LineSource) : Session :=
  { s with opened := s.opened.store name (.source source) }

def access {α : Type} (s : Session) (inBackground : Bool) (operation : Access α) :
    Except Error α × Session :=
  let operation := if inBackground then Access.inBackground operation else operation
  let (result, host) := operation s.host
  (result, { s with host := host })

/-! ### Preferences and settings -/

def createPreferences (s : Session) (format : Timestamp.Format) : Preferences × Session :=
  let (p, host) := Preferences.create format s.host
  (p, { s with host := host })

def preferencesOf (s : Session) : PreferenceOrigin → Preferences × Session
  | .share name =>
    match s.preferences.get? name with
    | some p => (p, s)
    | none => s.createPreferences default
  | .settings name =>
    match s.settings.get? name with
    | some settings => s.createPreferences settings.mtimeFormat
    | none => s.createPreferences default
  | .format format => s.createPreferences format
  | .standard => s.createPreferences default

def settingsOf (s : Session) : SettingsOrigin → Except Error Settings
  | .document text => Settings.ofDocument text
  | .file path => Settings.load s.tree.find path
  | .defaultFile => Settings.loadDefault s.tree.find s.configHome
  | .values settings => .ok settings

def optionsOf (s : Session) (request : OpenRequest) : LineOptions × Session :=
  let settings := (request.settings.bind s.settings.get?).getD Settings.standard
  let (preferences, s) :=
    match request.preferences.bind s.preferences.get? with
    | some p => (p, s)
    | none => s.createPreferences settings.mtimeFormat
  let options := settings.lineOptions preferences
  ({ options with
      strip := request.strip.getD options.strip
      threshold := request.threshold.getD options.threshold
      missing := request.missing.getD options.missing }, s)

/-! ### Line sources -/

def stateOf (host : Host) (source : LineSource) : SourceState where
  cursor := source.window.cursor
  length := source.length
  isEmpty := source.isEmpty
  isMapped := source.isMapped
  strips := source.strips
  path := source.path
  rawMtime := source.rawMtime
  mtime := source.mtime host

/-- Take records from an iteration, all of them when no number is given.  Where it
    ends before the number is reached, it is asked twice more. -/
def takeLines (lines : Lines) (take : Option Nat) :
    List Bytes × Option (Option Bytes × Option Bytes) × Lines :=
  let (records, lines) :=
    match take with
    | none => lines.drain
    | some n => lines.take n
  if take = some records.length then (records, none, lines)
  else
    let (first, lines) := lines.next
    let (second, lines) := lines.next
    (records, some (first, second), lines)

def openedAnswer : Opened → Answer
  | .source s => .openedSource s.length s.isMapped
  | .empty => .openedEmpty
  | .absent => .openedAbsent

def nextOf (s : Session) (name : String) (reader : Reader) : Answer × Session :=
  let (record, reader) := reader.next
  (.record record, { s with opened := s.opened.store name reader.toOpened })

def act (s : Session) (name : String) (opened : Opened) : Action → Answer × Session
  | .next asReader =>
    match opened with
    | .source source =>
      if asReader then s.nextOf name (.source source)
      else
        let (record, source) := source.next
        (.record record, s.updateSource name source)
    | .empty => s.nextOf name .empty
    | .absent => (if asReader then .absent else .notASource, s)
  | .mtime asReader =>
    match opened with
    | .source source =>
      if asReader then (.mtime ((Reader.source source).mtime? s.host), s)
      else (.mtime (some (source.mtime s.host)), s)
    | .empty => (.mtime (Reader.empty.mtime? s.host), s)
    | .absent => (.absent, s)
  | .lines take =>
    match opened with
    | .source source =>
      let (records, afterEnd, lines) := takeLines source.lines take
      (.records records afterEnd, s.updateSource name (source.resume lines))
    | _ => (.notASource, s)
  | .lengths =>
    match opened with
    | .source source =>
      let (records, lines) := source.lines.drain
      (.lengths (records.map List.length), s.updateSource name (source.resume lines))
    | _ => (.notASource, s)
  | .count =>
    match opened with
    | .source source =>
      let (records, lines) := source.lines.drain
      (.count records.length, s.updateSource name (source.resume lines))
    | .empty => (.count 0, s)
    | .absent => (.notASource, s)
  | .remaining =>
    match opened with
    | .source source => (.remaining source.remaining, s)
    | _ => (.notASource, s)
  | .state =>
    match opened with
    | .source source => (.state (stateOf s.host source), s)
    | _ => (.notASource, s)
  | .release =>
    match opened with
    | .source _ => (.released, s.closeName name opened)
    | _ => (.nothingToRelease, s.closeName name opened)
  | .drop => (.dropped, s.dropName name)

def step (s : Session) : Step → Answer × Session
  | .put path node => (.done, { s with tree := s.tree.put path node })
  | .remove path => (.done, { s with tree := s.tree.remove path })
  | .rename source path => (.done, { s with tree := s.tree.rename source path })
  | .status path =>
    match s.access false (OpenFile.status s.tree.find path) with
    | (.ok status, s) => (.status status, s)
    | (.error e, s) => (.failed e, s)
  | .readWhole path policy inBackground =>
    match s.access inBackground (readWhole s.tree.find path policy) with
    | (.ok (some bytes), s) => (.content bytes, s)
    | (.ok none, s) => (.noContent, s)
    | (.error e, s) => (.failed e, s)
  | .newPreferences name origin =>
    let (p, s) := s.preferencesOf origin
    (.format (p.format s.host), { s with preferences := s.preferences.store name p })
  | .setFormat name format =>
    match s.preferences.get? name with
    | none => (.unknownName, s)
    | some p => (.done, { s with host := p.setFormat format s.host })
  | .getFormat name =>
    match s.preferences.get? name with
    | none => (.unknownName, s)
    | some p => (.format (p.format s.host), s)
  | .render name t =>
    match s.preferences.get? name with
    | none => (.unknownName, s)
    | some p => (.rendered (p.render t s.host), s)
  | .dropPreferences name =>
    (.existed (s.preferences.get? name).isSome,
      { s with preferences := s.preferences.erase name })
  | .settings name origin =>
    match s.settingsOf origin with
    | .error e => (.failed e, s)
    | .ok settings => (.settings settings, { s with settings := s.settings.store name settings })
  | .defaultSettingsPath =>
    match Settings.defaultPath s.configHome with
    | none => (.noContent, s)
    | some path => (.path path, s)
  | .openLines name path request inBackground =>
    let (options, s) := s.optionsOf request
    match s.access inBackground (FileAccess.openLines s.tree.find path options) with
    | (.ok opened, s) => (openedAnswer opened, s.storeOpened name opened)
    | (.error e, s) => (.failed e, s)
  | .held => (.held s.host.held.length, s)
  | .log => (.log s.host.log, { s with host := { s.host with log := [] } })
  | .on name action =>
    match s.opened.get? name with
    | none => (.unknownName, s)
    | some opened => s.act name opened action

def run (s : Session) : List Step → List Answer × Session
  | [] => ([], s)
  | first :: others =>
    let (answer, s) := s.step first
    let (answers, s) := s.run others
    (answer :: answers, s)

end Session

end FileAccess
