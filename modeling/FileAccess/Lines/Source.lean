/-
  FileAccess/Lines/Source.lean
  ============================
  **Line sources.**

  A line source delivers the records of a file.  It owns the store that keeps the
  file's bytes, a window on them, and a copy of a preference handle, through which
  its modification time is rendered.  What it reports was captured when the file
  was opened.

  Records are delivered one by one by the source itself, or by a `Lines`, which
  borrows the source's window and hands it back where it stopped.
-/
import FileAccess.Lines.Store
import FileAccess.Lines.Window
import FileAccess.MissingPolicy
import FileAccess.Preferences

namespace FileAccess

structure LineOptions where
  strip : Bool
  missing : MissingPolicy
  preferences : Preferences
  threshold : Nat
deriving DecidableEq, Repr

namespace LineOptions

/-- The options that hold unless asked otherwise: newlines are stripped and a path
    that does not exist is an error. -/
def standard (preferences : Preferences) : LineOptions :=
  ⟨true, .raise, preferences, Store.defaultThreshold⟩

end LineOptions

/-- The lines of an open file.  The store is there until the source is released. -/
structure LineSource where
  store : Option Store
  window : Window
  strips : Bool
  rawMtime : Timestamp
  preferences : Preferences
  path : Bytes
deriving DecidableEq, Repr

namespace LineSource

def ofOpenFile (file : OpenFile) (options : LineOptions) : Access LineSource := do
  let store ← Store.load file options.threshold
  return {
    store := some store
    window := .ofContent store.content
    strips := options.strip
    rawMtime := file.mtime
    preferences := options.preferences
    path := file.path
  }

def next (source : LineSource) : Option Bytes × LineSource :=
  match source.store with
  | none => (none, source)
  | some _ =>
    let (record, window) := source.window.next source.strips
    (record, { source with window := window })

def mtime (source : LineSource) (host : Host) : Timestamp.Value :=
  source.preferences.render source.rawMtime host

def remaining (source : LineSource) : Bytes :=
  source.window.ahead

def length (source : LineSource) : Nat :=
  source.window.cursor.stop - source.window.cursor.start

def isEmpty (source : LineSource) : Bool :=
  source.length == 0

def isMapped (source : LineSource) : Bool :=
  source.store.any Store.isMapped

/-- Let go of the store: everything counts as read.  Once it is gone nothing more
    happens. -/
def release (source : LineSource) (host : Host) : LineSource × Host :=
  match source.store with
  | none => (source, host)
  | some store => ({ source with store := none, window := source.window.giveUp }, store.release host)

def drop (source : LineSource) (host : Host) : Host :=
  (source.release host).2

def close (source : LineSource) (host : Host) : Host :=
  let (source, host) := source.release host
  source.drop host

end LineSource

/-! ### Borrowed iteration -/

structure Lines where
  window : Window
  strips : Bool
deriving DecidableEq, Repr

namespace Lines

def next (lines : Lines) : Option Bytes × Lines :=
  let (record, window) := lines.window.next lines.strips
  (record, { lines with window := window })

def take (lines : Lines) (n : Nat) : List Bytes × Lines :=
  let (records, window) := lines.window.take lines.strips n
  (records, { lines with window := window })

def drain (lines : Lines) : List Bytes × Lines :=
  let (records, window) := lines.window.drain lines.strips
  (records, { lines with window := window })

end Lines

namespace LineSource

def lines (source : LineSource) : Lines :=
  ⟨source.window, source.strips⟩

def resume (source : LineSource) (lines : Lines) : LineSource :=
  { source with window := lines.window }

end LineSource

end FileAccess
