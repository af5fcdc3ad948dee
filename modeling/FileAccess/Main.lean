/-
  FileAccess/Main.lean
  ====================
  **The program.**

  The command line runs on a lookup, which is plain functions.  The program asks
  the system beforehand about the few paths that a request can open, and lets the
  command line run on the answers.  Nothing is mapped for that: what can be read up
  to the reported size is what a mapping would hold.
-/
import FileAccess.Command.Run

namespace FileAccess

namespace Command

/-- The paths that a request may open, with the default settings file among them. -/
def Request.paths (configHome : Option Bytes) : Request → List Bytes
  | .cat file _ => [file]
  | .lines request =>
    request.file :: (request.settingsFile.or (Settings.defaultPath configHome)).toList
  | _ => []

def errnoOfCode (code : UInt32) : Errno :=
  if code.toNat < twoPow 31 then ⟨code.toNat⟩ else ⟨twoPow 32 - code.toNat⟩

def errnoOf : IO.Error → Errno
  | .alreadyExists _ code _ | .otherError code _ | .resourceBusy code _
  | .resourceVanished code _ | .unsupportedOperation code _ | .hardwareFault code _
  | .unsatisfiedConstraints code _ | .illegalOperation code _ | .protocolError code _
  | .timeExpired code _ | .interrupted _ code _ | .noFileOrDirectory _ code _
  | .invalidArgument _ code _ | .permissionDenied _ code _ | .resourceExhausted _ code _
  | .inappropriateType _ code _ | .noSuchThing _ code _ => errnoOfCode code
  | .unexpectedEof | .userError _ => ⟨0⟩

def kindOf (found : IO.FS.Metadata) : Kind :=
  match found.type with
  | .file => .regular
  | .dir => .directory
  | _ => .other

def statOf (found : IO.FS.Metadata) : Stat where
  size := found.byteSize.toNat
  mtime := (Timestamp.of? found.modified.sec found.modified.nsec.toNat).getD
    (Timestamp.ofSeconds found.modified.sec)

/-- An open file with these answers, which is mapped when it delivers its reported size. -/
def targetOf (report : Stat) (reading : Reading) : Target where
  stat := .ok report
  reading := reading
  mapping := if reading.bytes.length = report.size then .ok reading.bytes else .error .noDevice
  length_mapping := by
    intro report' content hreport hcontent
    cases hreport
    split at hcontent
    · cases hcontent
      assumption
    · cases hcontent

/-- The system's answers about one path. -/
structure Answers where
  kind : Except Errno Kind
  target : Except Errno Target

def attempt {α : Type} (action : IO α) : IO (Except Errno α) := do
  try
    return .ok (← action)
  catch e =>
    return .error (errnoOf e)

def ask (path : String) : IO Answers := do
  if path.isEmpty then return ⟨.error .noEntry, .error .noEntry⟩
  let place := (← IO.currentDir) / path
  match ← attempt place.metadata with
  | .error errno => return ⟨.error errno, .error errno⟩
  | .ok found =>
    let report := statOf found
    match kindOf found with
    | .directory => return ⟨.ok .directory, .ok (.refusing report .isDirectory .noDevice)⟩
    | kind =>
      let content ← attempt (IO.FS.readBinFile place)
      return ⟨.ok kind, content.map fun content => targetOf report ⟨content.toList, none⟩⟩

/-- The user's configuration directory, if the environment tells one. -/
def configHome : IO (Option Bytes) := do
  let home := (← IO.getEnv "HOME").filter fun directory => !directory.isEmpty
  let standard := home.map fun directory => Settings.below (Bytes.ofString directory) ".config"
  match ← IO.getEnv "XDG_CONFIG_HOME" with
  | some directory =>
    return if directory.startsWith "/" then some (Bytes.ofString directory) else standard
  | none => return standard

/-- A lookup that knows the given answers. -/
def knowing (answers : List (Bytes × Answers)) : Lookup where
  kind path := ((answers.lookup path).map Answers.kind).getD (.error .noEntry)
  target path := ((answers.lookup path).map Answers.target).getD (.error .noEntry)

/-- What the program says where its arguments do not name a command it can run. -/
def texts : ParserTexts where
  help _ := Bytes.ofString
    "Usage: fastfs <COMMAND>\n\nCommands: normalize, join, cat, lines, help\n"
  rejection _ := "error: the arguments were rejected\n"

end Command

end FileAccess

open FileAccess in
def main (arguments : List String) : IO UInt32 := do
  let arguments := arguments.map Bytes.ofString
  let home ← Command.configHome
  let paths := ((Command.request? arguments).map (Command.Request.paths home)).getD []
  let answers ← paths.mapM fun path => do
    return (path, ← Command.ask (Utf8.display path))
  let ending := Command.run ⟨Command.knowing answers, home, true⟩ arguments Command.texts
  let out ← IO.getStdout
  out.write ⟨ending.output.toArray⟩
  out.flush
  (← IO.getStderr).putStr ending.errorOutput
  return UInt32.ofNat ending.code
