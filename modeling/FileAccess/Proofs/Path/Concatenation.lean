/-
  FileAccess/Proofs/Path/Concatenation.lean
  =========================================
  **What a join writes, segment by segment.**

  `concatenation` says what a join is without taking a segment apart: from the last
  absolute segment on, every segment but the last is written with the separators at its
  end replaced by one, or not at all when it is empty, and the last is written as it is.

  A join writes just that, except where the first segment written is a run of two or
  more separators and is not the last.  Its first separator is kept apart, so the rest
  of the run is taken for a segment of its own and leaves a separator too: one more than
  in the concatenation (`join_eq_concatenation_iff`).
-/
import FileAccess.Proofs.Path.Pairs

namespace FileAccess

namespace Path

open Bytes

/-! ### The segments that are written -/

/-- The segments from the last absolute one on, or all of them where none is absolute. -/
def fromAnchor : List Bytes → List Bytes
  | [] => []
  | segment :: segments =>
    if segments.any isAbsolute then fromAnchor segments else segment :: segments

/-- What a segment is written as when another follows it. -/
def contribution (segment : Bytes) : Bytes :=
  if segment = [] then [] else segment.rdropWhile (· == slash) ++ [slash]

def concatenation (segments : List Bytes) : Bytes :=
  (fromAnchor segments).dropLast.flatMap contribution ++ (fromAnchor segments).getLastD []

/-- The first segment written is a run of separators, two at least, and others follow. -/
def StartsWithRun (segments : List Bytes) : Prop :=
  ∃ length second others,
    fromAnchor segments = List.replicate (length + 2) slash :: second :: others

theorem fromAnchor_of_any {segment : Bytes} {segments : List Bytes}
    (h : segments.any isAbsolute = true) :
    fromAnchor (segment :: segments) = fromAnchor segments := by
  rw [fromAnchor, if_pos h]

theorem fromAnchor_cons_of_not_any (segment : Bytes) {segments : List Bytes}
    (h : segments.any isAbsolute = false) :
    fromAnchor (segment :: segments) = segment :: segments := by
  rw [fromAnchor, h]
  rfl

theorem fromAnchor_of_not_any {segments : List Bytes} (h : segments.any isAbsolute = false) :
    fromAnchor segments = segments := by
  cases segments with
  | nil => rfl
  | cons segment segments =>
    rw [List.any_cons, Bool.or_eq_false_iff] at h
    exact fromAnchor_cons_of_not_any segment h.2

theorem exists_fromAnchor_eq_cons {segments : List Bytes} (h : segments ≠ []) :
    ∃ anchor others, fromAnchor segments = anchor :: others ∧ others.any isAbsolute = false := by
  induction segments with
  | nil => exact absurd rfl h
  | cons segment segments ih =>
    cases hany : segments.any isAbsolute with
    | false => exact ⟨segment, segments, fromAnchor_cons_of_not_any segment hany, hany⟩
    | true =>
      rw [fromAnchor_of_any hany]
      exact ih (ne_nil_of_any hany)

theorem concatenation_singleton (segment : Bytes) : concatenation [segment] = segment := rfl

theorem concatenation_of_fromAnchor_eq_cons {segments others : List Bytes} {anchor : Bytes}
    (h : fromAnchor segments = anchor :: others) (hne : others ≠ [])
    (hothers : others.any isAbsolute = false) :
    concatenation segments = contribution anchor ++ concatenation others := by
  obtain ⟨second, rest, rfl⟩ := List.exists_cons_of_ne_nil hne
  rw [concatenation, concatenation, h, fromAnchor_of_not_any hothers]
  simp

/-! ### The anchor -/

theorem dropTrailingSlashes_eq_nil_iff {bs : Bytes} :
    dropTrailingSlashes bs = [] ↔ bs = List.replicate bs.length slash := by
  rw [dropTrailingSlashes_eq_rdropWhile, List.rdropWhile_eq_nil_iff, List.eq_replicate_iff]
  simp

theorem lead_eq_contribution (segment : Bytes) : lead segment = contribution segment := rfl

theorem contribution_slash_cons (tail : Bytes) :
    contribution (slash :: tail) =
      if dropTrailingSlashes tail = [] then [slash]
      else slash :: (dropTrailingSlashes tail ++ [slash]) := by
  have hdrop : dropTrailingSlashes (slash :: tail) =
      if dropTrailingSlashes tail = [] then [] else slash :: dropTrailingSlashes tail := by
    rw [← List.singleton_append, dropTrailingSlashes_append]
    rfl
  rw [contribution, if_neg (by simp), ← dropTrailingSlashes_eq_rdropWhile, hdrop]
  split <;> rfl

/-- A run of separators contributes one separator more than it should when its first is
    kept apart. -/
theorem opening_replicate (length : Nat) :
    opening (List.replicate (length + 2) slash) =
      slash :: contribution (List.replicate (length + 2) slash) := by
  have hrun : dropTrailingSlashes (List.replicate (length + 1) slash) = [] := by
    rw [dropTrailingSlashes_eq_nil_iff, List.length_replicate]
  have hlead : lead (List.replicate (length + 1) slash) = [slash] := by
    rw [lead_of_ne_nil (by simp), hrun]
    rfl
  rw [List.replicate_succ, contribution_slash_cons, if_pos hrun, ← hlead]
  rfl

theorem opening_eq_contribution {segment : Bytes}
    (h : ∀ length, segment ≠ List.replicate (length + 2) slash) :
    opening segment = contribution segment := by
  cases habs : isAbsolute segment with
  | false => rw [opening_of_not_isAbsolute habs, lead_eq_contribution]
  | true =>
    obtain ⟨tail, rfl⟩ := isAbsolute_iff.1 habs
    rw [opening_slash_cons, contribution_slash_cons]
    by_cases hne : tail = []
    · subst hne
      rfl
    · have hbody : dropTrailingSlashes tail ≠ [] := by
        intro hnil
        have hrun := dropTrailingSlashes_eq_nil_iff.1 hnil
        obtain ⟨length, hlength⟩ := Nat.exists_eq_add_one.2 (List.length_pos_iff.2 hne)
        refine h length ?_
        rw [hrun, hlength]
        rfl
      rw [if_neg hbody, lead_of_ne_nil hne]

/-! ### The join -/

/-- The segments before the anchor are not written. -/
theorem joined_fromAnchor (segments : List Bytes) :
    joined (fromAnchor segments) = joined segments := by
  induction segments with
  | nil => rfl
  | cons segment segments ih =>
    cases hany : segments.any isAbsolute with
    | false => rw [fromAnchor_cons_of_not_any segment hany]
    | true =>
      rw [fromAnchor_of_any hany, ih, joined_cons segment (ne_nil_of_any hany),
        pair_of_isAbsolute segment (by rw [isAbsolute_joined, hany])]

theorem joined_cons_of_not_any (segment : Bytes) {segments : List Bytes} (hne : segments ≠ [])
    (h : segments.any isAbsolute = false) :
    joined (segment :: segments) = opening segment ++ joined segments := by
  rw [joined_cons segment hne, pair_of_not_isAbsolute segment (by rw [isAbsolute_joined, h])]

theorem joined_eq_concatenation_of_not_any {segments : List Bytes} (hne : segments ≠ [])
    (h : segments.any isAbsolute = false) : joined segments = concatenation segments := by
  induction segments with
  | nil => exact absurd rfl hne
  | cons segment segments ih =>
    by_cases hrest : segments = []
    · subst hrest
      rw [joined_singleton, concatenation_singleton]
    · have hanchor := fromAnchor_of_not_any h
      rw [List.any_cons, Bool.or_eq_false_iff] at h
      rw [joined_cons_of_not_any segment hrest h.2, ih hrest h.2,
        opening_of_not_isAbsolute h.1, lead_eq_contribution,
        concatenation_of_fromAnchor_eq_cons hanchor hrest h.2]

section Anchor

variable {segments others : List Bytes} {anchor : Bytes}

theorem joined_of_fromAnchor_eq_cons (h : fromAnchor segments = anchor :: others)
    (hne : others ≠ []) (hothers : others.any isAbsolute = false) :
    joined segments = opening anchor ++ concatenation others := by
  rw [← joined_fromAnchor, h, joined_cons_of_not_any anchor hne hothers,
    joined_eq_concatenation_of_not_any hne hothers]

theorem joined_of_startsWithRun (hrun : StartsWithRun segments) :
    joined segments = slash :: concatenation segments := by
  obtain ⟨length, second, others, hanchor⟩ := hrun
  have hne : segments ≠ [] := by
    rintro rfl
    cases hanchor
  obtain ⟨anchor, rest, hcons, hrest⟩ := exists_fromAnchor_eq_cons hne
  obtain ⟨rfl, rfl⟩ := List.cons.inj (hanchor.symm.trans hcons)
  have hsome : second :: others ≠ [] := List.cons_ne_nil second others
  rw [joined_of_fromAnchor_eq_cons hanchor hsome hrest, opening_replicate,
    concatenation_of_fromAnchor_eq_cons hanchor hsome hrest, List.cons_append]

theorem joined_of_not_startsWithRun (hne : segments ≠ []) (hrun : ¬ StartsWithRun segments) :
    joined segments = concatenation segments := by
  obtain ⟨anchor, others, hanchor, hothers⟩ := exists_fromAnchor_eq_cons hne
  by_cases hlast : others = []
  · subst hlast
    rw [← joined_fromAnchor, concatenation, hanchor, joined_singleton]
    rfl
  · have hopening : opening anchor = contribution anchor := by
      apply opening_eq_contribution
      intro length hlength
      obtain ⟨second, rest, hcons⟩ := List.exists_cons_of_ne_nil hlast
      exact hrun ⟨length, second, rest, by rw [hanchor, hlength, hcons]⟩
    rw [joined_of_fromAnchor_eq_cons hanchor hlast hothers, hopening,
      concatenation_of_fromAnchor_eq_cons hanchor hlast hothers]

end Anchor

/-- **A join writes the concatenation, but for a run of separators that it starts with.**
    It always succeeds; what it writes is the concatenation unless the first segment
    written is such a run and others follow, and then it has one separator more. -/
theorem join_eq_concatenation_iff {segments : List Bytes} (hne : segments ≠ []) :
    ∃ path, join segments = .ok path ∧
      (path = concatenation segments ↔ ¬ StartsWithRun segments) ∧
      (StartsWithRun segments → path = slash :: concatenation segments) := by
  refine ⟨joined segments, join_eq_ok_joined hne, ⟨?_, ?_⟩, joined_of_startsWithRun⟩
  · intro hsame hrun
    rw [joined_of_startsWithRun hrun] at hsame
    exact List.cons_ne_self _ _ hsame
  · exact joined_of_not_startsWithRun hne

theorem join_eq_concatenation_iff_doubleSlash :
    join [[0x61], [slash, slash], [], [0x62, slash, slash], [0x63, slash]] =
        .ok [slash, slash, 0x62, slash, 0x63, slash] ∧
      StartsWithRun [[0x61], [slash, slash], [], [0x62, slash, slash], [0x63, slash]] ∧
      concatenation [[0x61], [slash, slash], [], [0x62, slash, slash], [0x63, slash]] =
        [slash, 0x62, slash, 0x63, slash] := by
  obtain ⟨path, hjoin, _, hrun⟩ := @join_eq_concatenation_iff
    [[0x61], [slash, slash], [], [0x62, slash, slash], [0x63, slash]] (by simp)
  have hstarts : StartsWithRun [[0x61], [slash, slash], [], [0x62, slash, slash], [0x63, slash]] :=
    ⟨0, [], [[0x62, slash, slash], [0x63, slash]], rfl⟩
  have hpath : path = slash :: [slash, 0x62, slash, 0x63, slash] := hrun hstarts
  exact ⟨hpath ▸ hjoin, hstarts, rfl⟩

/-- A first segment `//` in front of another leaves two separators, where its
    concatenation has one. -/
theorem join_doubleSlash_ne_concatenation :
    join [[slash, slash], [0x61]] = .ok [slash, slash, 0x61] ∧
      concatenation [[slash, slash], [0x61]] = [slash, 0x61] ∧
      join [[slash, slash], [0x61]] ≠ .ok (concatenation [[slash, slash], [0x61]]) := by
  refine ⟨rfl, rfl, ?_⟩
  intro h
  cases h

end Path

end FileAccess
