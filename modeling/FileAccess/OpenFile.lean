/-
  FileAccess/OpenFile.lean
  ========================
  **Opening a file.**

  Every operation on a file starts here.  A path must not be empty and must not
  hold a NUL; the system opens it and reports on the open file, and the report is
  kept with the descriptor.  Where there is no report the descriptor is closed
  again.  An open directory is no error yet: it becomes one when it is read or
  mapped.

  A file is read in one pass, for as many bytes as its report says.  Closing a
  descriptor always succeeds here.
-/
import FileAccess.Host
import FileAccess.Tree.Lookup

namespace FileAccess

namespace Lookup

/-- Open a path, unless it holds a NUL, which the system is never given. -/
def open? (lookup : Lookup) (path : Bytes) : Except IoError Target :=
  if path.contains Bytes.nul then .error .nulInPath
  else (lookup.target path).mapError .system

/-- Whether there is a regular file at a path.  The path is not opened for that. -/
def isRegularFile (lookup : Lookup) (path : Bytes) : Bool :=
  if path.contains Bytes.nul then false
  else
    match lookup.kind path with
    | .ok .regular => true
    | _ => false

end Lookup

/-- An open file, with what the system reported on it. -/
structure OpenFile where
  descriptor : Descriptor
  target : Target
  report : Stat
  reported : target.stat = .ok report
  path : Bytes

namespace OpenFile

def size (file : OpenFile) : Nat :=
  file.report.size

def mtime (file : OpenFile) : Timestamp :=
  file.report.mtime

def acquire (lookup : Lookup) (path : Bytes) : Access OpenFile :=
  if path = [] then throw (.usage .noPath)
  else
    match lookup.open? path with
    | .error source => throw (.ofOpen path .opening source)
    | .ok target => do
      let d ← Access.takeDescriptor
      match h : target.stat with
      | .error errno =>
        Access.close d
        throw (.ofSystem path .stating (.system errno))
      | .ok report => return ⟨d, target, report, h, path⟩

/-- The error of a read that was to deliver a number of bytes.  A file that ended before is
    told apart from one that could not be read. -/
def readError (path : Bytes) (expected : Nat) (source : IoError) : Error :=
  .ofSystem path (if source.isUnexpectedEnd then .shortRead expected else .reading) source

/-- The bytes of an open file, as many as were reported. -/
def content (file : OpenFile) : Except Error Bytes :=
  (file.target.reading.exactly file.size).mapError (readError file.path file.size)

/-- Read the whole of an open file, and close the descriptor whether or not the
    reading succeeded. -/
def readAndClose (file : OpenFile) : Access Bytes := do
  let result := file.content
  Access.close file.descriptor
  liftExcept result

structure Status where
  size : Nat
  mtime : Timestamp
  path : Bytes
deriving DecidableEq, Repr

def status (lookup : Lookup) (path : Bytes) : Access Status := do
  let file ← acquire lookup path
  Access.close file.descriptor
  return ⟨file.size, file.mtime, file.path⟩

end OpenFile

end FileAccess
