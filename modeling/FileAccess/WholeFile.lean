/-
  FileAccess/WholeFile.lean
  =========================
  **Reading a whole file.**
-/
import FileAccess.MissingPolicy
import FileAccess.OpenFile

namespace FileAccess

/-- The content of a file, under a policy for a path that does not exist: an empty
    content, or none at all. -/
def readWhole (lookup : Lookup) (path : Bytes) (policy : MissingPolicy) :
    Access (Option Bytes) := do
  let attempt ← Operation.attempt (OpenFile.acquire lookup path)
  let outcome ← liftExcept (policy.resolve attempt)
  match outcome with
  | .found file =>
    Access.tell (.reading file.path file.size)
    let content ← file.readAndClose
    return some content
  | .empty => return some []
  | .absent => return none

end FileAccess
