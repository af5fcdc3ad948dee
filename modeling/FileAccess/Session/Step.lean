/-
  FileAccess/Session/Step.lean
  ============================
  **The steps of a session and their answers.**

  A session is a conversation with the library: each step changes the file tree,
  uses the library, or asks about something opened before, and has one answer.
  Names choose among the things opened, the preferences, and the settings; the
  three have separate names.
-/
import FileAccess.Lines.Open
import FileAccess.Settings.Basic
import FileAccess.Tree.Basic

namespace FileAccess

namespace Session

/-- Where a new preference comes from: it shares that of another handle, starts with
    the format of stored settings, starts with a given format, or starts with the
    standard one. -/
inductive PreferenceOrigin where
  | share (name : String)
  | settings (name : String)
  | format (format : Timestamp.Format)
  | standard
deriving Repr

inductive SettingsOrigin where
  | document (text : String)
  | file (path : Bytes)
  | defaultFile
  | values (settings : Settings)
deriving Repr

/-- How a step opens a line source: from stored settings or the standard options,
    with a named preference or a new one, and with whatever is given here instead. -/
structure OpenRequest where
  settings : Option String := none
  preferences : Option String := none
  strip : Option Bool := none
  threshold : Option Nat := none
  missing : Option MissingPolicy := none
deriving Repr

/-- What a step can do with something opened.  `asReader` asks for it to be used
    through what sources and the empty sequence have in common. -/
inductive Action where
  | next (asReader : Bool)
  | mtime (asReader : Bool)
  | lines (take : Option Nat)
  | lengths
  | count
  | remaining
  | state
  | release
  | drop
deriving DecidableEq, Repr

/-- The steps.  `inBackground` asks for the work to be done on another thread. -/
inductive Step where
  | put (path : Bytes) (node : Node)
  | remove (path : Bytes)
  | rename (source path : Bytes)
  | status (path : Bytes)
  | readWhole (path : Bytes) (policy : MissingPolicy) (inBackground : Bool)
  | newPreferences (name : String) (origin : PreferenceOrigin)
  | setFormat (name : String) (format : Timestamp.Format)
  | getFormat (name : String)
  | render (name : String) (t : Timestamp)
  | dropPreferences (name : String)
  | settings (name : String) (origin : SettingsOrigin)
  | defaultSettingsPath
  | openLines (name : String) (path : Bytes) (request : OpenRequest) (inBackground : Bool)
  | held
  | log
  | on (name : String) (action : Action)

structure SourceState where
  cursor : Cursor
  length : Nat
  isEmpty : Bool
  isMapped : Bool
  strips : Bool
  path : Bytes
  rawMtime : Timestamp
  mtime : Timestamp.Value
deriving DecidableEq, Repr

inductive Answer where
  | done
  | failed (error : Error)
  | status (status : OpenFile.Status)
  | content (bytes : Bytes)
  | noContent
  | format (format : Timestamp.Format)
  | rendered (value : Timestamp.Value)
  | existed (existed : Bool)
  | settings (settings : Settings)
  | path (path : Bytes)
  | openedSource (length : Nat) (isMapped : Bool)
  | openedEmpty
  | openedAbsent
  | held (count : Nat)
  | log (records : List LogRecord)
  | record (record : Option Bytes)
  | mtime (value : Option Timestamp.Value)
  | records (records : List Bytes) (afterEnd : Option (Option Bytes × Option Bytes))
  | lengths (lengths : List Nat)
  | count (count : Nat)
  | remaining (bytes : Bytes)
  | state (state : SourceState)
  | released
  | nothingToRelease
  | dropped
  | unknownName
  | absent
  | notASource
deriving DecidableEq, Repr

end Session

end FileAccess
