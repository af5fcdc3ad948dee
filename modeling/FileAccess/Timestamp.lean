/-
  FileAccess/Timestamp.lean
  =========================
  **Modification times and how they are rendered.**

  A timestamp is a count of seconds and nanoseconds since the epoch.  It is
  rendered either as its whole seconds or as one binary floating point number of
  seconds, which is computed as the format computes it: the seconds and the
  nanoseconds are rounded, the nanoseconds times `nanoUnit` are rounded, and the
  sum is rounded.
-/
import FileAccess.Binary64

namespace FileAccess

structure Timestamp where
  secs : Int
  nanos : Nat
  nanos_lt : nanos < 1000000000
deriving DecidableEq, Repr

namespace Timestamp

def ofSeconds (secs : Int) : Timestamp :=
  ⟨secs, 0, by decide⟩

def of? (secs : Int) (nanos : Nat) : Option Timestamp :=
  if h : nanos < 1000000000 then some ⟨secs, nanos, h⟩ else none

def order (a b : Timestamp) : Ordering :=
  (compare a.secs b.secs).then (compare a.nanos b.nanos)

inductive Format where
  | integer
  | fractional
deriving DecidableEq, Repr

/-- Timestamps are rendered with their fraction unless asked otherwise. -/
instance : Inhabited Format := ⟨.fractional⟩

inductive Value where
  | seconds (secs : Int)
  | fractional (value : Binary64)
deriving DecidableEq, Repr

/-- The number of the 53-digit format nearest to a billionth. -/
def nanoUnit : Scaled :=
  ⟨0x112E0BE826D695, -82⟩

/-- Seconds and nanoseconds as one number of seconds, each operation rounded to 53
    binary digits. -/
def fractionalSeconds (t : Timestamp) : Scaled :=
  let nanos := (nanoUnit.mul (Scaled.ofInt t.nanos).round53).round53
  ((Scaled.ofInt t.secs).round53.add nanos).round53

def render (t : Timestamp) : Format → Value
  | .integer => .seconds t.secs
  | .fractional => .fractional (Binary64.ofScaled t.fractionalSeconds)

def Value.toBinary64 : Value → Binary64
  | .seconds secs => Binary64.ofScaled (Scaled.ofInt secs)
  | .fractional value => value

/-- The text of a rendered timestamp: whole seconds as an integer, fractional ones
    with nine places. -/
def Value.text : Value → String
  | .seconds secs => toString secs
  | .fractional value => value.fixedText 9

end Timestamp

end FileAccess
