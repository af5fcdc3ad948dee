/-
  FileAccess/Settings/Load.lean
  =============================
  **Settings files.**

  A settings file is read to its end and must be UTF-8.  The default file is the
  one at a fixed place below the user's configuration directory.  It is read only
  when a regular file is there, which is found out without opening it; otherwise,
  and for a user without a configuration directory, the standard settings hold.
-/
import FileAccess.OpenFile
import FileAccess.Settings.Document

namespace FileAccess

namespace Settings

def readText (lookup : Lookup) (path : Bytes) : Except IoError String :=
  match lookup.open? path with
  | .error source => .error source
  | .ok target =>
    match target.reading.toEnd with
    | .error errno => .error (.system errno)
    | .ok content =>
      match Utf8.decode? content with
      | some text => .ok text
      | none => .error .notUtf8

def load (lookup : Lookup) (path : Bytes) : Except Error Settings :=
  match readText lookup path with
  | .error source => .error (.settings (.unreadable path source))
  | .ok text => ofDocument text

/-- A name below a directory.  A directory that is spelled with a `/` at its end, and the
    empty one, get none. -/
def below (directory : Bytes) (name : String) : Bytes :=
  if directory = [] ∨ directory.getLast? = some Bytes.slash then directory ++ Bytes.ofString name
  else directory ++ Bytes.slash :: Bytes.ofString name

def defaultPath (configHome : Option Bytes) : Option Bytes :=
  configHome.map fun directory => below (below directory "fastfs") "config.toml"

/-- The settings in the default file, or the standard ones when there is none. -/
def loadDefault (lookup : Lookup) (configHome : Option Bytes) : Except Error Settings :=
  match defaultPath configHome with
  | none => .ok standard
  | some path => if lookup.isRegularFile path then load lookup path else .ok standard

end Settings

end FileAccess
