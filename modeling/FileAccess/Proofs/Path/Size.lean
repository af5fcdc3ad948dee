/-
  FileAccess/Proofs/Path/Size.lean
  ================================
  **How long a normal form is, and of what it is made.**

  A path is its segments with a separator between two of them, and a normal form is
  written from some of the segments of its path, in their order.  Fewer segments take no
  more room (`length_intercalate_le`), so the normal form of a path that is not empty is
  no longer than the path; and it has no octet that the path does not have, but for
  separators and the dot that stands for nothing.
-/
import FileAccess.Proofs.Path.NormalForm

namespace FileAccess

namespace Path

open Bytes
open FileAccess.Tree (names)

/-! ### Segments with separators between them -/

theorem intercalate_segments (path : Bytes) : [slash].intercalate (segments path) = path := by
  rw [segments_eq_splitOn]
  exact List.intercalate_splitOn slash

theorem segments_ne_nil (path : Bytes) : segments path ≠ [] := by
  rw [segments_eq_splitOn]
  exact List.splitOn_ne_nil slash path

theorem segments_intercalate {parts : List Bytes} (hne : parts ≠ [])
    (hfree : ∀ part ∈ parts, slash ∉ part) : segments ([slash].intercalate parts) = parts := by
  rw [segments_eq_splitOn]
  exact List.splitOn_intercalate slash hfree hne

theorem length_intercalate_cons (first : Bytes) (others : List Bytes) :
    ([slash].intercalate (first :: others)).length =
      first.length + if others = [] then 0 else 1 + ([slash].intercalate others).length := by
  by_cases hothers : others = []
  · subst hothers
    simp
  · rw [List.intercalate_cons_of_ne_nil hothers, if_neg hothers, List.length_append,
      List.length_append, List.length_singleton, Nat.add_assoc]

/-- Fewer segments take no more room. -/
theorem length_intercalate_le {fewer parts : List Bytes} (h : fewer.Sublist parts) :
    ([slash].intercalate fewer).length ≤ ([slash].intercalate parts).length := by
  induction h with
  | slnil => exact Nat.le_refl _
  | @cons fewer parts part h ih =>
    rw [length_intercalate_cons]
    by_cases hparts : parts = []
    · subst hparts
      rw [List.sublist_nil.1 h]
      exact Nat.zero_le _
    · rw [if_neg hparts]
      omega
  | @cons_cons fewer parts part h ih =>
    rw [length_intercalate_cons, length_intercalate_cons]
    by_cases hfewer : fewer = []
    · rw [if_pos hfewer]
      omega
    · have hparts : parts ≠ [] := by
        rintro rfl
        exact hfewer (List.sublist_nil.1 h)
      rw [if_neg hfewer, if_neg hparts]
      omega

theorem mem_intercalate {parts : List Bytes} {b : UInt8} (h : b ∈ [slash].intercalate parts) :
    b = slash ∨ ∃ part ∈ parts, b ∈ part := by
  induction parts with
  | nil => cases h
  | cons first others ih =>
    by_cases hothers : others = []
    · subst hothers
      rw [List.intercalate_singleton] at h
      exact Or.inr ⟨first, List.mem_singleton_self first, h⟩
    · rw [List.intercalate_cons_of_ne_nil hothers, List.mem_append, List.mem_append,
        List.mem_singleton] at h
      rcases h with (hfirst | hslash) | hrest
      · exact Or.inr ⟨first, List.mem_cons_self .., hfirst⟩
      · exact Or.inl hslash
      · rcases ih hrest with hslash | ⟨part, hpart, hb⟩
        · exact Or.inl hslash
        · exact Or.inr ⟨part, List.mem_cons_of_mem first hpart, hb⟩

theorem mem_intercalate_of_mem {parts : List Bytes} {part : Bytes} {b : UInt8}
    (hpart : part ∈ parts) (hb : b ∈ part) : b ∈ [slash].intercalate parts := by
  induction parts with
  | nil => cases hpart
  | cons first others ih =>
    by_cases hothers : others = []
    · subst hothers
      rw [List.intercalate_singleton]
      rwa [List.mem_singleton.1 hpart] at hb
    · rw [List.intercalate_cons_of_ne_nil hothers, List.mem_append, List.mem_append]
      rcases List.mem_cons.1 hpart with rfl | hpart
      · exact Or.inl (Or.inl hb)
      · exact Or.inr (ih hpart)

/-! ### Normal forms -/

theorem kept_sublist_segments (path : Bytes) : (kept path).Sublist (segments path) :=
  (kept_sublist_names path).trans List.filter_sublist

theorem intercalate_kept_ne_nil {path : Bytes} (h : kept path ≠ []) :
    [slash].intercalate (kept path) ≠ [] := by
  apply intercalate_ne_nil h
  intro segment hsegment
  exact (ne_nil_and_slash_notMem (isName_or_dotDot_of_mem_kept hsegment)).1

/-- A normal form is written in one of three ways. -/
theorem normalize_cases (path : Bytes) :
    (∃ rest, path = slash :: rest ∧ normalize path = slash :: [slash].intercalate (kept path)) ∨
      (isAbsolute path = false ∧ kept path = [] ∧ normalize path = [dot]) ∨
      (isAbsolute path = false ∧ kept path ≠ [] ∧
        normalize path = [slash].intercalate (kept path)) := by
  rw [normalize_eq_render]
  cases habs : isAbsolute path with
  | true =>
    obtain ⟨rest, hpath⟩ := isAbsolute_iff.1 habs
    exact Or.inl ⟨rest, hpath, render_true (kept path)⟩
  | false =>
    by_cases hkept : kept path = []
    · rw [hkept]
      exact Or.inr (Or.inl ⟨rfl, rfl, rfl⟩)
    · exact Or.inr (Or.inr
        ⟨rfl, hkept, render_false_of_ne_nil (intercalate_kept_ne_nil hkept)⟩)

theorem normalize_ne_nil (path : Bytes) : normalize path ≠ [] := by
  rcases normalize_cases path with ⟨_, _, hnormal⟩ | ⟨_, _, hnormal⟩ | ⟨_, hkept, hnormal⟩
  · rw [hnormal]
    exact List.cons_ne_nil slash _
  · rw [hnormal]
    exact List.cons_ne_nil dot []
  · rw [hnormal]
    exact intercalate_kept_ne_nil hkept

/-- **Normalizing does not make a path longer.** -/
theorem length_normalize_le {path : Bytes} (h : path ≠ []) :
    (normalize path).length ≤ path.length := by
  rcases normalize_cases path with ⟨rest, hpath, hnormal⟩ | ⟨_, _, hnormal⟩ | ⟨_, _, hnormal⟩
  · -- the segments after the root's separator are those of the path without it
    have hkept : (kept path).Sublist (segments rest) := by
      have hnames := kept_sublist_names path
      rw [hpath, names_slash_cons, ← hpath] at hnames
      exact hnames.trans List.filter_sublist
    have hle := length_intercalate_le hkept
    rw [intercalate_segments] at hle
    have hlength : path.length = rest.length + 1 := by
      rw [hpath, List.length_cons]
    rw [hnormal, List.length_cons, hlength]
    exact Nat.succ_le_succ hle
  · rw [hnormal]
    exact List.length_pos_iff.2 h
  · have hle := length_intercalate_le (kept_sublist_segments path)
    rw [intercalate_segments] at hle
    rw [hnormal]
    exact hle

/-- **Normalizing adds no octets** but separators and dots. -/
theorem mem_of_mem_normalize {path : Bytes} {b : UInt8} (h : b ∈ normalize path)
    (hslash : b ≠ slash) (hdot : b ≠ dot) : b ∈ path := by
  have hkept : b ∈ [slash].intercalate (kept path) := by
    rcases normalize_cases path with ⟨_, _, hnormal⟩ | ⟨_, _, hnormal⟩ | ⟨_, _, hnormal⟩
    · rw [hnormal] at h
      exact (List.mem_cons.1 h).resolve_left hslash
    · rw [hnormal] at h
      exact absurd (List.mem_singleton.1 h) hdot
    · rwa [hnormal] at h
  obtain ⟨segment, hsegment, hb⟩ := (mem_intercalate hkept).resolve_left hslash
  rw [← intercalate_segments path]
  exact mem_intercalate_of_mem ((kept_sublist_segments path).subset hsegment) hb

end Path

end FileAccess
