/-
  FileAccess/Error.lean
  =====================
  **What can go wrong, and how it is told.**

  An `IoError` is what the system or the layer above it reports: an error
  number, or a condition that never reached the system.  An `Error` is what the
  library answers with.  It records causes, not texts; the wording of every
  message is in `Error.message` and the functions it calls.

  `Error.ofOpen` decides which error a failed open becomes.  It looks at the
  *condition* that an `IoError` stands for, so a number that shares a condition
  with something else is classified with it: 22 is classified as a rejected
  argument.
-/
import FileAccess.Bytes
import FileAccess.Errno
import FileAccess.Utf8

namespace FileAccess

/-! ### Reports from below -/

/-- A condition that a failed operation can be in, whether or not the system
    gave a number for it. -/
inductive Condition where
  | notFound
  | invalidInput
  | invalidData
  | permissionDenied
  | unexpectedEnd
  | other
deriving DecidableEq, Repr

def Condition.description : Condition → String
  | .notFound => "entity not found"
  | .invalidInput => "invalid input parameter"
  | .invalidData => "invalid data"
  | .permissionDenied => "permission denied"
  | .unexpectedEnd => "unexpected end of file"
  | .other => "other error"

/-- A failure as it is reported from below: the system's error number, or a
    condition, perhaps with a text of its own. -/
inductive IoError where
  | system (errno : Errno)
  | condition (kind : Condition) (text : Option String)
deriving DecidableEq, Repr

namespace IoError

def errno? : IoError → Option Errno
  | .system e => some e
  | .condition _ _ => none

def text : IoError → String
  | .system e => e.text
  | .condition _ (some t) => t
  | .condition kind none => kind.description

def isNotFound : IoError → Bool
  | .system e => e = .noEntry
  | .condition kind _ => kind = .notFound

def isInvalidInput : IoError → Bool
  | .system e => e = .invalidArgument
  | .condition kind _ => kind = .invalidInput

/-- No number of the system stands for this condition. -/
def isUnexpectedEnd : IoError → Bool
  | .system _ => false
  | .condition kind _ => kind = .unexpectedEnd

/-- A path that holds a NUL is rejected before the system sees it. -/
def nulInPath : IoError :=
  .condition .invalidInput (some "file name contained an unexpected NUL byte")

def notUtf8 : IoError :=
  .condition .invalidData (some "stream did not contain valid UTF-8")

/-- A file ended before it had delivered what was asked for. -/
def unfilled : IoError :=
  .condition .unexpectedEnd (some "failed to fill whole buffer")

end IoError

/-! ### Errors of the library -/

inductive Misuse where
  | noSegments
  | noPath
  | rejectedPath (path : Bytes) (source : IoError)
  | stated (text : String)
deriving DecidableEq, Repr

def Misuse.text : Misuse → String
  | .noSegments => "join takes at least one segment (0 given)"
  | .noPath => "a path is required"
  | .rejectedPath path source => Utf8.display path ++ ": " ++ source.text
  | .stated text => text

inductive Activity where
  | opening
  | stating
  | reading
  | shortRead (expected : Nat)
  | mapping
  | stated (text : String)
deriving DecidableEq, Repr

def Activity.text : Activity → String
  | .opening => "Failed to open file"
  | .stating => "Failed to stat file"
  | .reading => "Failed to read file"
  | .shortRead expected => "Short read, expected " ++ toString expected ++ " bytes"
  | .mapping => "Failed to memory map file"
  | .stated text => text

inductive SettingsFault where
  | unreadable (path : Bytes) (source : IoError)
  | malformed
  | stated (text : String)
deriving DecidableEq, Repr

def SettingsFault.text : SettingsFault → String
  | .unreadable path source => "Failed to read " ++ Utf8.display path ++ ": " ++ source.text
  | .malformed => "TOML parse error"
  | .stated text => text

/-- The errors of the library.  `usage`: the call was wrong.  `notFound`: the
    path does not exist when it is opened.  `os`: any other failure of the system,
    with its number, or 0 when it has none.  `settings`: a configuration cannot be
    used.  `task`: work given to another thread did not finish. -/
inductive Error where
  | usage (cause : Misuse)
  | notFound (path : Bytes) (source : IoError)
  | os (path : Bytes) (code : Nat) (activity : Activity) (source : IoError)
  | settings (cause : SettingsFault)
  | task (text : String)
deriving DecidableEq, Repr

namespace Error

def ofSystem (path : Bytes) (activity : Activity) (source : IoError) : Error :=
  .os path ((source.errno?.map Errno.code).getD 0) activity source

/-- The error that a failed open of `path` becomes: `notFound` when the path does
    not exist, `usage` when the path was rejected, `os` otherwise. -/
def ofOpen (path : Bytes) (activity : Activity) (source : IoError) : Error :=
  if source.isNotFound then .notFound path source
  else if source.isInvalidInput then .usage (.rejectedPath path source)
  else ofSystem path activity source

def message : Error → String
  | .usage cause => "Invalid usage: " ++ cause.text
  | .notFound path _ => "No such file: " ++ Utf8.display path
  | .os path code activity _ =>
    activity.text ++ ": " ++ Utf8.display path ++ " (os error " ++ toString code ++ ")"
  | .settings cause => "Configuration error: " ++ cause.text
  | .task text => "Background task failed: " ++ text

def isNotFound : Error → Bool
  | .notFound _ _ => true
  | _ => false

def osCode? : Error → Option Nat
  | .notFound _ source => source.errno?.map Errno.code
  | .os _ code _ _ => some code
  | _ => none

def path? : Error → Option Bytes
  | .notFound path _ => some path
  | .os path _ _ _ => some path
  | _ => none

def source? : Error → Option IoError
  | .notFound _ source => some source
  | .os _ _ _ source => some source
  | _ => none

end Error

end FileAccess
