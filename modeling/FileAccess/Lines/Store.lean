/-
  FileAccess/Lines/Store.lean
  ===========================
  **Where the bytes of a line source are kept.**

  A file smaller than a threshold is read into memory and its descriptor closed at
  once.  Any other file is mapped, and its descriptor is held as long as the
  mapping lives.  For a regular file the content is the same either way.
-/
import FileAccess.OpenFile

namespace FileAccess

inductive Store where
  | buffered (content : Bytes)
  | mapped (content : Bytes) (descriptor : Descriptor)
deriving DecidableEq, Repr

namespace Store

def defaultThreshold : Nat := 16384

def content : Store → Bytes
  | .buffered content => content
  | .mapped content _ => content

def isMapped : Store → Bool
  | .buffered _ => false
  | .mapped _ _ => true

/-- Read or map an open file.  When this fails the descriptor has been closed. -/
def load (file : OpenFile) (threshold : Nat) : Access Store :=
  if file.size < threshold then do
    Access.tell (.buffering file.path file.size)
    let content ← file.readAndClose
    return .buffered content
  else
    match file.target.mapping with
    | .ok content => do
      Access.tell (.mapped file.path file.size)
      return .mapped content file.descriptor
    | .error errno => do
      Access.close file.descriptor
      throw (.ofSystem file.path .mapping (.system errno))

def release : Store → Host → Host
  | .buffered _, host => host
  | .mapped _ d, host => { host with closed := host.closed ++ [d] }

end Store

end FileAccess
