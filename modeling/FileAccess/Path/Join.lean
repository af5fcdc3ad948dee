/-
  FileAccess/Path/Join.lean
  =========================
  **Joining path segments.**

  Segments are joined with one `/` between two of them.  A segment that starts
  with `/` discards what stands before it, so the join starts at the last such
  segment, its *anchor*.  Every segment but the last loses its trailing
  separators to the one that is written after it; the last keeps its own.  An
  empty segment contributes nothing, not even a separator.

  The anchor's first separator is written on its own and taken off the segment,
  so an anchor made of one separator contributes just that one.
-/
import FileAccess.Error
import FileAccess.Path.Normalize

namespace FileAccess

namespace Path

open Bytes

def dropTrailingSlashes (bs : Bytes) : Bytes :=
  (bs.reverse.dropWhile (· == slash)).reverse

/-- What a segment contributes when another follows it: its body and one
    separator, or nothing when it is empty. -/
def lead (segment : Bytes) : Bytes :=
  if segment = [] then [] else dropTrailingSlashes segment ++ [slash]

/-- Write segments after one another: each but the last as it leads the next, the
    last as it is. -/
def chain : List Bytes → Bytes
  | [] => []
  | [last] => last
  | segment :: segments => lead segment ++ chain segments

/-- The last absolute segment and the segments after it, if one is absolute. -/
def anchor? (segments : List Bytes) : Option (Bytes × List Bytes) :=
  match segments.reverse.dropWhile (fun s => !isAbsolute s) with
  | [] => none
  | anchor :: _ => some (anchor, (segments.reverse.takeWhile (fun s => !isAbsolute s)).reverse)

def join (segments : List Bytes) : Except Error Bytes :=
  if segments = [] then .error (.usage .noSegments)
  else
    match anchor? segments with
    | none => .ok (chain segments)
    | some (anchor, after) => .ok (slash :: chain (anchor.tail :: after))

end Path

end FileAccess
