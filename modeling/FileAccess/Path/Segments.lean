/-
  FileAccess/Path/Segments.lean
  =============================
  **A path as a list of segments.**

  Cutting a path at every `/` gives its segments, some of them empty.  The
  system's walk through a tree reads a path this way.
-/
import FileAccess.Bytes

namespace FileAccess

namespace Path

open Bytes

/-- The segments between the separators of a path, empty ones included: one more
    than it has separators. -/
def segments : Bytes → List Bytes
  | [] => [[]]
  | b :: bs =>
    if b == slash then [] :: segments bs
    else
      match segments bs with
      | [] => [[b]]
      | first :: others => (b :: first) :: others

theorem segments_eq_splitOn (path : Bytes) : segments path = path.splitOn slash := by
  induction path with
  | nil => rfl
  | cons b bs ih =>
    simp only [segments, List.splitOn_cons_eq_if_modifyHead, ih]
    split
    · rfl
    · cases hbs : bs.splitOn slash with
      | nil => exact absurd hbs (List.splitOn_ne_nil slash bs)
      | cons first others => rfl

end Path

end FileAccess
