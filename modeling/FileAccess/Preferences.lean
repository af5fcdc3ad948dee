/-
  FileAccess/Preferences.lean
  ===========================
  **Shared timestamp preferences.**

  A preference handle names a cell of the host.  Copies of a handle name the same
  cell, so setting the format through one is seen through all of them; a new
  handle gets a cell of its own.
-/
import FileAccess.Host

namespace FileAccess

structure Preferences where
  cell : Nat
deriving DecidableEq, Repr

namespace Preferences

def create (format : Timestamp.Format) (host : Host) : Preferences × Host :=
  (⟨host.cells.length⟩, { host with cells := host.cells ++ [format] })

def format (preferences : Preferences) (host : Host) : Timestamp.Format :=
  (host.cells[preferences.cell]?).getD default

def setFormat (preferences : Preferences) (format : Timestamp.Format) (host : Host) : Host :=
  { host with cells := host.cells.set preferences.cell format }

def render (preferences : Preferences) (t : Timestamp) (host : Host) : Timestamp.Value :=
  t.render (preferences.format host)

end Preferences

end FileAccess
