/-
  FileAccess/MissingPolicy.lean
  =============================
  **What to do about a path that does not exist.**

  A policy speaks only of an open that failed because the path does not exist.
  Any other failure, and any success, passes through it unchanged.
-/
import FileAccess.Error

namespace FileAccess

/-- The three answers to a path that does not exist: the error itself, an empty
    result, or the word that there is none. -/
inductive MissingPolicy where
  | raise
  | empty
  | absent
deriving DecidableEq, Repr, Inhabited

inductive Outcome (α : Type) where
  | found (value : α)
  | empty
  | absent
deriving DecidableEq, Repr

namespace MissingPolicy

/-- The policy that three flags select: a wish for an empty result comes before a
    wish for absence, which comes before a plain wish to ignore; ignoring alone
    gives an empty result. -/
def ofFlags (ignoreMissing emptyOnMissing absentOnMissing : Bool) : MissingPolicy :=
  if emptyOnMissing then .empty
  else if absentOnMissing then .absent
  else if ignoreMissing then .empty
  else .raise

/-- The two policies of a whole-file read: a file to be ignored is absent. -/
def ignoreOrRaise (ignoreMissing : Bool) : MissingPolicy :=
  if ignoreMissing then .absent else .raise

def resolve {α : Type} (policy : MissingPolicy) (attempt : Except Error α) :
    Except Error (Outcome α) :=
  match attempt with
  | .ok value => .ok (.found value)
  | .error e =>
    if e.isNotFound then
      match policy with
      | .raise => .error e
      | .empty => .ok .empty
      | .absent => .ok .absent
    else .error e

end MissingPolicy

end FileAccess
