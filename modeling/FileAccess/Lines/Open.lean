/-
  FileAccess/Lines/Open.lean
  ==========================
  **Opening a file for its lines.**

  The result is a line source, or, where the path does not exist and the policy
  says so, the empty sequence or nothing.  A `Reader` is what a source and the
  empty sequence have in common.
-/
import FileAccess.Lines.Source

namespace FileAccess

inductive Opened where
  | source (source : LineSource)
  | empty
  | absent
deriving DecidableEq, Repr

inductive Reader where
  | source (source : LineSource)
  | empty
deriving DecidableEq, Repr

namespace Reader

def next : Reader → Option Bytes × Reader
  | .source s =>
    let (record, s') := s.next
    (record, .source s')
  | .empty => (none, .empty)

def mtime? : Reader → Host → Option Timestamp.Value
  | .source s, host => some (s.mtime host)
  | .empty, _ => none

def drain : Reader → List Bytes × Reader
  | .source s =>
    let (records, lines) := s.lines.drain
    (records, .source (s.resume lines))
  | .empty => ([], .empty)

def toOpened : Reader → Opened
  | .source s => .source s
  | .empty => .empty

end Reader

namespace Opened

def reader? : Opened → Option Reader
  | .source s => some (.source s)
  | .empty => some .empty
  | .absent => none

def drop : Opened → Host → Host
  | .source s, host => s.drop host
  | _, host => host

def close : Opened → Host → Host
  | .source s, host => s.close host
  | _, host => host

end Opened

def openLines (lookup : Lookup) (path : Bytes) (options : LineOptions) : Access Opened := do
  let attempt ← Operation.attempt (OpenFile.acquire lookup path)
  let outcome ← liftExcept (options.missing.resolve attempt)
  match outcome with
  | .found file =>
    let source ← LineSource.ofOpenFile file options
    return .source source
  | .empty => return .empty
  | .absent => return .absent

end FileAccess
