/-
  FileAccess/Path/Normalize.lean
  ==============================
  **The normal form of a path, by one scan.**

  `normalize` rewrites a path without consulting any file system: runs of `/`
  collapse, `.` disappears, `..` takes back the name written last, and a
  trailing `/` is dropped.  A `..` with no name to take back is kept in a
  relative path and dropped in an absolute one.

  The scan reads the path once and writes one output, in which a `..` is undone
  by cutting the output back to its previous separator.  `Scan` is the state at
  the head of its loop, and `Scan.step` is one turn of it, so that what holds at
  every loop head can be stated.  The output is kept last octet first, so that
  writing and cutting back both happen at the head of a list.
-/
import FileAccess.Bytes

namespace FileAccess

namespace Path

open Bytes

def isAbsolute : Bytes → Bool
  | [] => false
  | b :: _ => b == slash

def slashRun (bs : Bytes) : Nat :=
  (bs.takeWhile (· == slash)).length

/-! ### The scan -/

/-- The scan at the head of its loop: the number of octets read, the octets
    still to read, the output so far (last octet first), and the number of names
    in it that `..` may take back, each written with its separator. -/
structure Scan where
  pos : Nat
  rest : Bytes
  out : Bytes
  depth : Nat
deriving DecidableEq, Repr

namespace Scan

def start (path : Bytes) : Scan :=
  ⟨0, path, [], 0⟩

def advance (s : Scan) (n : Nat) : Scan :=
  { s with pos := s.pos + n, rest := s.rest.drop n }

def write (s : Scan) (bs : Bytes) : Scan :=
  { s with out := bs.reverse ++ s.out }

/-- Cut the output back to just after the separator before its last one, or to
    nothing where there is none before it. -/
def cutBack (s : Scan) : Scan :=
  { s with out := s.out.tail.dropWhile (· != slash), depth := s.depth - 1 }

/-- One turn: a separator is written once for its whole run, and ends a name
    unless it opens the path; `.` is skipped with the separators after it; `..`
    cuts the output back, or is kept where nothing can be taken back and the path
    is relative; any other name is copied. -/
def step (absolute : Bool) (s : Scan) : Scan :=
  match s.rest with
  | [] => s
  | b :: _ =>
    if b == slash then
      let s' := { s.write [slash] with depth := if s.pos = 0 then s.depth else s.depth + 1 }
      s'.advance (slashRun s.rest)
    else
      let name := s.rest.takeWhile (· != slash)
      let through := name.length + slashRun (s.rest.drop name.length)
      if name = [dot] then s.advance through
      else if name = [dot, dot] then
        if s.depth > 0 then s.cutBack.advance through
        else if absolute then s.advance through
        else (s.write [dot, dot, slash]).advance through
      else (s.write name).advance name.length

theorem slashRun_pos (bs : Bytes) : 0 < slashRun (slash :: bs) := by
  simp [slashRun]

theorem step_rest_length_lt (absolute : Bool) (s : Scan) (h : s.rest ≠ []) :
    (step absolute s).rest.length < s.rest.length := by
  obtain ⟨pos, rest, out, depth⟩ := s
  cases rest with
  | nil => exact absurd rfl h
  | cons b bs =>
    by_cases hb : b = slash
    · subst hb
      have := slashRun_pos bs
      simp only [step, advance, write, beq_self_eq_true, if_true, List.length_drop,
        List.length_cons]
      omega
    · have hname : 0 < ((b :: bs).takeWhile (· != slash)).length := by
        simp [hb]
      have hbeq : (b == slash) = false := by simpa using hb
      simp only [step, hbeq]
      split
      · simp_all
      · repeat' split
        all_goals simp only [advance, write, cutBack, List.length_drop, List.length_cons]; omega

def run (absolute : Bool) (s : Scan) : Scan :=
  if h : s.rest = [] then s
  else
    have := step_rest_length_lt absolute s h
    run absolute (step absolute s)
termination_by s.rest.length

/-- The path written: a trailing separator is dropped unless it is all there is,
    and where nothing was written the path is `.`. -/
def finish (s : Scan) : Bytes :=
  match s.out with
  | [] => [dot]
  | [b] => [b]
  | b :: bs => if b == slash then bs.reverse else (b :: bs).reverse

end Scan

def normalize (path : Bytes) : Bytes :=
  (Scan.run (isAbsolute path) (Scan.start path)).finish

end Path

end FileAccess
