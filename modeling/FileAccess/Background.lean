/-
  FileAccess/Background.lean
  ==========================
  **Work given to another thread.**

  Blocking work can be given to a thread of its own.  Either it finishes, and its
  result is the answer, or the thread is lost, which is an error of its own.
-/
import FileAccess.Host

namespace FileAccess

/-- How work given to another thread ends. -/
inductive Completion (α : Type) where
  | finished (result : Except Error α)
  | lost (reason : String)

def Completion.join {α : Type} : Completion α → Except Error α
  | .finished result => result
  | .lost reason => .error (.task reason)

def Access.inBackground {α : Type} (operation : Access α) : Access α :=
  fun host =>
    let (result, host') := operation host
    ((Completion.finished result).join, host')

end FileAccess
