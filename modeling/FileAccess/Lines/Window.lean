/-
  FileAccess/Lines/Window.lean
  ============================
  **Cutting records out of a byte region.**

  A `Window` is a region of bytes that is read forward, record by record: its
  cursor holds the bounds of the region and the position reached, and `ahead` is
  what lies between the position and the end.  A record ends with its newline;
  the bytes after the last newline, if there are any, are a record too.  A record
  is delivered with its newline or without, and the cursor moves past the newline
  either way.
-/
import FileAccess.Bytes

namespace FileAccess

open Bytes

/-! ### Lines of a byte string -/

/-- The first line of a byte string, without its newline. -/
def firstBody (bs : Bytes) : Bytes :=
  bs.takeWhile (· != newline)

def firstIsEnded (bs : Bytes) : Bool :=
  !(bs.dropWhile (· != newline)).isEmpty

def firstRecord (strip : Bool) (bs : Bytes) : Bytes :=
  if firstIsEnded bs && !strip then firstBody bs ++ [newline] else firstBody bs

/-- The number of bytes in the first line of a byte string, its newline included. -/
def firstLength (bs : Bytes) : Nat :=
  (firstBody bs).length + (if firstIsEnded bs then 1 else 0)

/-! ### Cursors and windows -/

structure Cursor where
  start : Nat
  stop : Nat
  position : Nat
deriving DecidableEq, Repr

namespace Cursor

def left (c : Cursor) : Nat :=
  c.stop - c.position

def isExhausted (c : Cursor) : Bool :=
  c.position == c.stop

end Cursor

structure Window where
  cursor : Cursor
  ahead : Bytes
deriving DecidableEq, Repr

namespace Window

def ofContent (content : Bytes) : Window :=
  ⟨⟨0, content.length, 0⟩, content⟩

def advance (w : Window) (n : Nat) : Window :=
  ⟨{ w.cursor with position := w.cursor.position + n }, w.ahead.drop n⟩

def next (strip : Bool) (w : Window) : Option Bytes × Window :=
  if w.cursor.isExhausted then (none, w)
  else (some (firstRecord strip w.ahead), w.advance (firstLength w.ahead))

/-- Cut at most `n` more records after those already cut (newest first), stopping
    where there is none. -/
def takeFrom (strip : Bool) (cut : List Bytes) : Nat → Window → List Bytes × Window
  | 0, w => (cut.reverse, w)
  | n + 1, w =>
    match w.next strip with
    | (none, w') => (cut.reverse, w')
    | (some record, w') => takeFrom strip (record :: cut) n w'

def take (strip : Bool) (n : Nat) (w : Window) : List Bytes × Window :=
  takeFrom strip [] n w

/-- Cut all the records that are left.  Each takes a byte at least, so there are no
    more of them than bytes left. -/
def drain (strip : Bool) (w : Window) : List Bytes × Window :=
  w.take strip (w.cursor.left + 1)

def giveUp (w : Window) : Window :=
  ⟨{ w.cursor with position := w.cursor.stop }, []⟩

end Window

end FileAccess
