/-
  FileAccess/Proofs/Path/Buffer.lean
  ==================================
  **The scan and the room it writes to.**

  A scan is given room for one octet more than the path has.  This file shows that it
  never needs more (`Holds.length_le`), although a kept `..` is written with three
  octets where two were read and a separator is written before it is known to be
  needed: the octet too many is written at the end of the path only, and it is taken
  back there.

  Both facts come from what a single turn does (`step_cases`): it reads on, and it cuts
  the output back or writes a piece that is no longer than what it reads, but for one
  octet where it reads all that is left.
-/
import FileAccess.Proofs.Path.Size
import Mathlib.Logic.Function.Iterate

namespace FileAccess

namespace Path

open Bytes

theorem slashRun_le (bs : Bytes) : slashRun bs ≤ bs.length :=
  (List.takeWhile_prefix _).length_le

theorem Breaks.slashRun_pos {tail : Bytes} (h : Breaks tail) (hne : tail ≠ []) :
    0 < slashRun tail := by
  obtain ⟨rest, rfl⟩ := isAbsolute_iff.1 (h.resolve_left hne)
  exact Scan.slashRun_pos rest

namespace Scan

/-! ### The states of a scan -/

/-- The states that the scan of a path has at the head of its loop. -/
inductive AtHead (path : Bytes) : Scan → Prop where
  | first : AtHead path (start path)
  | next {s : Scan} (h : AtHead path s) (hs : s.rest ≠ []) :
      AtHead path (step (isAbsolute path) s)

/-- The outputs (last octet first) that there are at one moment or another while a path is
    normalized: at the head of the loop, within a turn when a part of what it writes has
    been written, and when the path has been finished. -/
inductive Holds (path : Bytes) : Bytes → Prop where
  | atHead {s : Scan} (h : AtHead path s) : Holds path s.out
  | writing {s : Scan} {out : Bytes} (h : AtHead path s) (hs : s.rest ≠ [])
      (hmore : s.out <:+ out) (hpart : out <:+ (step (isAbsolute path) s).out) :
      Holds path out
  | finished : Holds path (normalize path).reverse

/-- The room that is reserved before the scan starts. -/
def capacity (path : Bytes) : Nat :=
  path.length + 1

/-! ### One turn -/

/-- What a turn that reads `n` octets does to the output: it is cut back, or a piece is
    written.  The piece is longer than what is read only at the end of the path, and
    then by one octet. -/
inductive Turns (s : Scan) (n : Nat) (out : Bytes) : Prop where
  | cuts (hcut : out <:+ s.out)
  | writes (piece : Bytes) (hout : out = piece.reverse ++ s.out) (hle : piece.length ≤ n)
  | overruns (piece : Bytes) (hout : out = piece.reverse ++ s.out)
      (hle : piece.length ≤ n + 1) (hend : n = s.rest.length)

theorem cutBack_suffix (s : Scan) : s.cutBack.out <:+ s.out :=
  (List.dropWhile_suffix _).trans (List.tail_suffix _)

/-- **A turn reads on**, and writes no more than it reads, but for one octet at the end. -/
theorem step_cases (absolute : Bool) {s : Scan} (hs : s.rest ≠ []) :
    ∃ n, 0 < n ∧ n ≤ s.rest.length ∧ (step absolute s).pos = s.pos + n ∧
      (step absolute s).rest = s.rest.drop n ∧ Turns s n (step absolute s).out := by
  by_cases habs : isAbsolute s.rest = true
  · obtain ⟨tail, hrest⟩ := isAbsolute_iff.1 habs
    have hpos := slashRun_pos tail
    rw [step_slash absolute hrest]
    refine ⟨slashRun (slash :: tail), hpos, ?_, rfl, by rw [hrest], ?_⟩
    · rw [hrest]
      exact slashRun_le (slash :: tail)
    · exact .writes [slash] rfl hpos
  · rw [Bool.not_eq_true] at habs
    obtain ⟨segment, tail, hrest, hne, hfree, htail⟩ := exists_segment_append hs habs
    have hsegment : 0 < segment.length := List.length_pos_iff.2 hne
    have hlength : s.rest.length = segment.length + tail.length := by
      rw [hrest, List.length_append]
    have hrun := slashRun_le tail
    rw [step_segment absolute hrest hne hfree htail]
    by_cases hdot : segment = [dot]
    · rw [if_pos hdot]
      exact ⟨_, by omega, by omega, rfl, rfl, .cuts (List.suffix_refl s.out)⟩
    · rw [if_neg hdot]
      by_cases hup : segment = [dot, dot]
      · rw [if_pos hup]
        split
        · exact ⟨_, by omega, by omega, rfl, rfl, .cuts s.cutBack_suffix⟩
        · split
          · exact ⟨_, by omega, by omega, rfl, rfl, .cuts (List.suffix_refl s.out)⟩
          · refine ⟨_, by omega, by omega, rfl, rfl, ?_⟩
            -- a kept `..` is written with its separator, which the path has unless it ends
            subst hup
            by_cases hnil : tail = []
            · subst hnil
              exact .overruns [dot, dot, slash] rfl (Nat.le_refl 3) hlength.symm
            · have hbreak := htail.slashRun_pos hnil
              refine .writes [dot, dot, slash] rfl ?_
              show 3 ≤ 2 + slashRun tail
              omega
      · rw [if_neg hup]
        exact ⟨_, hsegment, by omega, rfl, rfl, .writes segment rfl (Nat.le_refl _)⟩

/-! ### Every turn -/

/-- A scan has read its position's worth of the path, and has written no more than that, but
    for one octet once everything is read. -/
structure Fits (path : Bytes) (s : Scan) : Prop where
  pos_le : s.pos ≤ path.length
  rest_eq : s.rest = path.drop s.pos
  out_le : s.out.length ≤ s.pos ∨ s.rest = [] ∧ s.out.length ≤ s.pos + 1

variable {path : Bytes} {s : Scan}

theorem Fits.length_rest (h : Fits path s) : s.rest.length = path.length - s.pos := by
  rw [h.rest_eq, List.length_drop]

theorem Fits.rest_ne_nil_iff (h : Fits path s) : s.rest ≠ [] ↔ s.pos < path.length := by
  rw [← List.length_pos_iff, h.length_rest, Nat.sub_pos_iff_lt]

theorem Fits.out_le_pos (h : Fits path s) (hs : s.rest ≠ []) : s.out.length ≤ s.pos :=
  h.out_le.resolve_right fun hend => hs hend.1

theorem Fits.out_le_capacity (h : Fits path s) : s.out.length ≤ capacity path := by
  have hpos := h.pos_le
  rw [capacity]
  rcases h.out_le with hle | ⟨_, hle⟩
  · exact Nat.le_succ_of_le (Nat.le_trans hle hpos)
  · exact Nat.le_trans hle (Nat.succ_le_succ hpos)

theorem fits_start (path : Bytes) : Fits path (start path) :=
  ⟨Nat.zero_le _, rfl, Or.inl (Nat.le_refl 0)⟩

theorem Fits.step (h : Fits path s) (absolute : Bool) (hs : s.rest ≠ []) :
    Fits path (step absolute s) := by
  obtain ⟨n, _, hle, hpos, hrest, hturn⟩ := step_cases absolute hs
  have hout := h.out_le_pos hs
  have hlength := h.length_rest
  have hplace := h.pos_le
  constructor
  case pos_le =>
    rw [hpos]
    omega
  case rest_eq => rw [hrest, hpos, h.rest_eq, List.drop_drop]
  case out_le =>
    rw [hpos, hrest]
    cases hturn with
    | cuts hcut =>
      left
      have := hcut.length_le
      omega
    | writes piece hpiece hshort =>
      left
      rw [hpiece, List.length_append, List.length_reverse]
      omega
    | overruns piece hpiece hlong hend =>
      right
      refine ⟨List.drop_eq_nil_of_le (Nat.le_of_eq hend.symm), ?_⟩
      rw [hpiece, List.length_append, List.length_reverse]
      omega

theorem AtHead.fits (h : AtHead path s) : Fits path s := by
  induction h with
  | first => exact fits_start path
  | next _ hs ih => exact ih.step (isAbsolute path) hs

theorem pos_lt_step (absolute : Bool) (hs : s.rest ≠ []) : s.pos < (step absolute s).pos := by
  obtain ⟨n, hn, _, hpos, _⟩ := step_cases absolute hs
  rw [hpos]
  exact Nat.lt_add_of_pos_right hn

/-! ### The run -/

theorem AtHead.run (h : AtHead path s) :
    AtHead path (run (isAbsolute path) s) ∧ (Scan.run (isAbsolute path) s).rest = [] :=
  run_induct (isAbsolute path) (fun _ hs hhead => hhead.next hs) h

/-- A run is as many turns as it takes to read everything, each of which reads an octet at
    least. -/
theorem exists_run_eq_iterate (absolute : Bool) (s : Scan) :
    ∃ turns ≤ s.rest.length, run absolute s = (Scan.step absolute)^[turns] s := by
  induction s using run.induct absolute with
  | case1 s hrest =>
    refine ⟨0, Nat.zero_le _, ?_⟩
    rw [Scan.run, dif_pos hrest]
    rfl
  | case2 s hrest hless ih =>
    obtain ⟨turns, hle, hrun⟩ := ih
    refine ⟨turns + 1, Nat.succ_le_of_lt (Nat.lt_of_le_of_lt hle hless), ?_⟩
    rw [Scan.run, dif_neg hrest, Function.iterate_succ_apply]
    exact hrun

/-- The output grows to what the next head holds, or is there already. -/
theorem Holds.length_le {out : Bytes} (hpath : path ≠ []) (h : Holds path out) :
    out.length ≤ capacity path := by
  cases h with
  | atHead h => exact h.fits.out_le_capacity
  | writing h hs _ hpart => exact Nat.le_trans hpart.length_le (h.next hs).fits.out_le_capacity
  | finished =>
    rw [List.length_reverse]
    exact Nat.le_succ_of_le (length_normalize_le hpath)

end Scan

/-- How a path is normalized in the room that is reserved for it. -/
structure KeepsWithin (path : Bytes) : Prop where
  /-- The normal form is no longer than the path. -/
  length_le : (normalize path).length ≤ path.length
  /-- At the head of the loop the position is one in the path, and what is still to be
      read is the path from there on. -/
  rest_eq : ∀ s, Scan.AtHead path s → s.pos ≤ path.length ∧ s.rest = path.drop s.pos
  /-- While there is something to read, no more octets have been written than read. -/
  out_le_pos : ∀ s, Scan.AtHead path s → s.pos < path.length → s.out.length ≤ s.pos
  /-- At no moment does the output need more room than was reserved. -/
  within_capacity : ∀ out, Scan.Holds path out → out.length ≤ Scan.capacity path
  /-- Every turn reads on, -/
  pos_lt_step : ∀ s, Scan.AtHead path s → s.pos < path.length →
    s.pos < (Scan.step (isAbsolute path) s).pos
  /-- so the loop ends, at the end of the path and after no more turns than the path has
      octets. -/
  ends : ∃ turns ≤ path.length,
    Scan.run (isAbsolute path) (Scan.start path) =
      (Scan.step (isAbsolute path))^[turns] (Scan.start path) ∧
    (Scan.run (isAbsolute path) (Scan.start path)).pos = path.length

/-- **Normalizing needs no more room than is reserved**, and comes to an end. -/
theorem normalize_keepsWithin {path : Bytes} (h : path ≠ []) : KeepsWithin path := by
  constructor
  case length_le => exact length_normalize_le h
  case rest_eq =>
    intro s hs
    exact ⟨hs.fits.pos_le, hs.fits.rest_eq⟩
  case out_le_pos =>
    intro s hs hpos
    exact hs.fits.out_le_pos (hs.fits.rest_ne_nil_iff.2 hpos)
  case within_capacity =>
    intro out hout
    exact hout.length_le h
  case pos_lt_step =>
    intro s hs hpos
    exact Scan.pos_lt_step _ (hs.fits.rest_ne_nil_iff.2 hpos)
  case ends =>
    obtain ⟨turns, hle, hrun⟩ := Scan.exists_run_eq_iterate (isAbsolute path) (Scan.start path)
    have hfirst : Scan.AtHead path (Scan.start path) := .first
    obtain ⟨hhead, hrest⟩ := hfirst.run
    refine ⟨turns, hle, hrun, ?_⟩
    have hdone := mt hhead.fits.rest_ne_nil_iff.2 (not_not_intro hrest)
    exact Nat.le_antisymm hhead.fits.pos_le (Nat.not_lt.1 hdone)

/-- The output of a kept `..` at the end of a path fills the room that was reserved. -/
theorem normalize_keepsWithin_lastClimb :
    [dot, dot] ≠ [] ∧ KeepsWithin [dot, dot] ∧
      Scan.Holds [dot, dot] [slash, dot, dot] ∧ Scan.capacity [dot, dot] = 3 :=
  ⟨by decide, normalize_keepsWithin (by decide),
    .atHead (.next .first (by decide)), rfl⟩

end Path

end FileAccess
