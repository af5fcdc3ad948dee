/-
  FileAccess/Command/Failure.lean
  ===============================
  **How the command line tells a failure.**

  A failure has an outermost text and the causes below it, each the cause of the
  one before.  One cause stands indented on its own; several are numbered.
-/
import FileAccess.Error

namespace FileAccess

namespace Command

/-- Why a command failed: an error of the library, perhaps with a text that says
    what was being done, or a request for settings that cannot be read. -/
inductive Failure where
  | error (context : Option String) (error : Error)
  | settingsUnsupported
deriving DecidableEq, Repr

namespace Failure

def chainOf (e : Error) : List String :=
  e.message :: (e.source?.map IoError.text).toList

def texts : Failure → String × List String
  | .error (some context) e => (context, chainOf e)
  | .error none e => (e.message, (e.source?.map IoError.text).toList)
  | .settingsUnsupported => ("--config requires fastfs to be built with the `config` feature", [])

def indented (indent : String) (text : String) : String :=
  String.ofList (text.toList.flatMap fun c => if c == '\n' then '\n' :: indent.toList else [c])

def onlyCause (text : String) : String :=
  "\n    " ++ indented "    " text

/-- Causes with their numbers, which are set to the right of five columns. -/
def numberedCauses (first : Nat) : List String → String
  | [] => ""
  | text :: texts =>
    let digits := toString first
    "\n" ++ String.ofList (List.replicate (5 - digits.length) ' ') ++ digits ++ ": " ++
      indented "       " text ++ numberedCauses (first + 1) texts

def text (failure : Failure) : String :=
  let (outermost, causes) := failure.texts
  let below :=
    match causes with
    | [] => ""
    | [cause] => "\n\nCaused by:" ++ onlyCause cause
    | causes => "\n\nCaused by:" ++ numberedCauses 0 causes
  "Error: " ++ outermost ++ below ++ "\n"

end Failure

end Command

end FileAccess
