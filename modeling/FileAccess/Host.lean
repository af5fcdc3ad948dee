/-
  FileAccess/Host.lean
  ====================
  **What the library holds while it runs.**

  Opening a file takes a descriptor, reading and mapping are told in a log, and
  timestamp preferences are cells that several handles can share.  A `Host` is
  the three together, and an `Access` is an operation on it that may fail; what it
  did before it failed stays done.

  Descriptors are numbered in the order in which they were taken, and no number is
  given twice, so the ones still held are those that were taken and not closed.
-/
import FileAccess.Error
import FileAccess.Operation
import FileAccess.Timestamp

namespace FileAccess

/-! ### The log -/

/-- What the log can tell: a file is about to be read into memory for line
    reading; it has been mapped; it is about to be read whole. -/
inductive LogRecord where
  | buffering (path : Bytes) (size : Nat)
  | mapped (path : Bytes) (length : Nat)
  | reading (path : Bytes) (size : Nat)
deriving DecidableEq, Repr

def LogRecord.level : LogRecord → String
  | .buffering _ _ => "DEBUG"
  | .mapped _ _ => "DEBUG"
  | .reading _ _ => "TRACE"

def LogRecord.text : LogRecord → String
  | .buffering path size => "buffering " ++ Utf8.display path ++ " (" ++ toString size ++ " bytes)"
  | .mapped path length => "mapped " ++ Utf8.display path ++ " (" ++ toString length ++ " bytes)"
  | .reading path size => "reading " ++ toString size ++ " bytes from " ++ Utf8.display path

/-! ### The host -/

abbrev Descriptor := Nat

structure Host where
  issued : Nat := 0
  closed : List Descriptor := []
  log : List LogRecord := []
  cells : List Timestamp.Format := []
deriving DecidableEq, Repr

namespace Host

/-- The descriptors that are held: taken, and not closed since. -/
def held (host : Host) : List Descriptor :=
  (List.range host.issued).filter fun d => !host.closed.contains d

end Host

abbrev Access := Operation Host Error

namespace Access

def takeDescriptor : Access Descriptor :=
  modifyGet fun host => (host.issued, { host with issued := host.issued + 1 })

def close (d : Descriptor) : Access Unit :=
  modify fun host => { host with closed := host.closed ++ [d] }

def tell (record : LogRecord) : Access Unit :=
  modify fun host => { host with log := host.log ++ [record] }

end Access

end FileAccess
