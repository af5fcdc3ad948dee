/-
  FileAccess/Target.lean
  ======================
  **What an open finds.**

  Three things can be asked about an open file, and the system's answers are not tied to
  each other: what it reports of the file, what reading delivers from the start, and what
  a mapping of the reported size holds.  A regular file that is left alone answers all
  three from its content (`Target.file`).  Other things do not: a directory has a size,
  and can be neither read nor mapped; a device may report no size and still deliver bytes,
  or none, and may refuse to be mapped.

  What a reading delivers is finite here, and an interrupted read has been tried again.
-/
import FileAccess.Error
import FileAccess.Timestamp

namespace FileAccess

/-- What the system reports of an open file. -/
structure Stat where
  size : Nat
  mtime : Timestamp
deriving DecidableEq, Repr

/-- What one read after the other delivers: bytes, and after them the end of the file or
    an error. -/
structure Reading where
  bytes : Bytes
  error? : Option Errno := none
deriving DecidableEq, Repr

namespace Reading

/-- Read up to the end of the file. -/
def toEnd (reading : Reading) : Except Errno Bytes :=
  match reading.error? with
  | none => .ok reading.bytes
  | some errno => .error errno

/-- Read a number of bytes.  The file is not read again when these are there, so nothing
    can keep the reading of no bytes from succeeding. -/
def exactly (reading : Reading) (n : Nat) : Except IoError Bytes :=
  if n ≤ reading.bytes.length then .ok (reading.bytes.take n)
  else
    match reading.error? with
    | none => .error .unfilled
    | some errno => .error (.system errno)

end Reading

/-- An open file.  A mapping of it is as long as its reported size. -/
structure Target where
  stat : Except Errno Stat
  reading : Reading
  mapping : Except Errno Bytes
  length_mapping : ∀ report content, stat = .ok report → mapping = .ok content →
    content.length = report.size

namespace Target

/-- A regular file that is left alone. -/
def file (content : Bytes) (mtime : Timestamp) : Target where
  stat := .ok ⟨content.length, mtime⟩
  reading := ⟨content, none⟩
  mapping := .ok content
  length_mapping := by
    rintro _ _ ⟨⟩ ⟨⟩
    rfl

/-- Something that the system reports on, and that can be neither read nor mapped. -/
def refusing (report : Stat) (readErrno mapErrno : Errno) : Target where
  stat := .ok report
  reading := ⟨[], some readErrno⟩
  mapping := .error mapErrno
  length_mapping := nofun

end Target

end FileAccess
