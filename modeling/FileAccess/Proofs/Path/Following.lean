/-
  FileAccess/Proofs/Path/Following.lean
  =====================================
  **Following a join is following its segments in turn.**

  The path that a join writes leads from a directory to where its segments lead when
  each is followed from the place that the one before has reached (`meaning_joined`).
  An absolute segment starts again at the root, which is why what stands before it can
  be discarded; the separators that a join drops or adds name nothing.

  A normal form leads where its path does, so normalizing the segments first changes
  nothing of what their join means, and the meaning decides the normal form.
-/
import FileAccess.Proofs.Path.Meaning
import FileAccess.Proofs.Path.Pairs

namespace FileAccess

namespace Path

open Bytes
open FileAccess.Tree (names startOf)

/-! ### Normal forms -/

theorem meaning_normalize (path : Bytes) (base : Location) :
    meaning (normalize path) base = meaning path base := by
  rw [meaning_eq_foldl_names, names_normalize, meaning_eq_foldl_kept, startOf, startOf,
    isAbsolute_normalize]

theorem normalize_eq_of_meaning_eq {p q : Bytes}
    (h : ∀ base : Location, meaning p base = meaning q base) : normalize p = normalize q :=
  normalize_eq_normalize_iff.2 (kept_eq_of_meaning_eq fun base _ => h base)

/-! ### The segments of a pair -/

theorem names_concat_slash (bs : Bytes) : names (bs ++ [slash]) = names bs := by
  rw [names_append_slash, names_nil, List.append_nil]

theorem names_dropTrailingSlashes (bs : Bytes) : names (dropTrailingSlashes bs) = names bs := by
  induction bs using List.reverseRecOn with
  | nil => rfl
  | append_singleton bs b ih =>
    rw [dropTrailingSlashes_eq_rdropWhile]
    by_cases hb : b = slash
    · subst hb
      rw [List.rdropWhile_concat_pos _ _ _ rfl, ← dropTrailingSlashes_eq_rdropWhile, ih,
        names_concat_slash]
    · rw [List.rdropWhile_concat_neg _ _ _ (by simpa using hb)]

theorem names_lead_append (segment bs : Bytes) :
    names (lead segment ++ bs) = names segment ++ names bs := by
  by_cases h : segment = []
  · subst h
    rfl
  · rw [lead_of_ne_nil h, List.append_assoc, List.singleton_append, names_append_slash,
      names_dropTrailingSlashes]

theorem names_opening_append (segment bs : Bytes) :
    names (opening segment ++ bs) = names segment ++ names bs := by
  cases habs : isAbsolute segment with
  | false => rw [opening_of_not_isAbsolute habs, names_lead_append]
  | true =>
    obtain ⟨tail, rfl⟩ := isAbsolute_iff.1 habs
    rw [opening_slash_cons, List.cons_append, names_slash_cons, names_lead_append,
      names_slash_cons]

/-! ### Following a join -/

theorem meaning_pair (first second : Bytes) (base : Location) :
    meaning (pair first second) base = meaning second (meaning first base) := by
  cases habs : isAbsolute second with
  | true =>
    rw [pair_of_isAbsolute first habs, meaning, meaning, startOf, startOf, habs]
    rfl
  | false =>
    have hnames : names (pair first second) = names first ++ names second := by
      rw [pair_of_not_isAbsolute first habs, names_opening_append]
    rw [meaning_eq_foldl_names (pair first second), hnames, List.foldl_append, startOf,
      isAbsolute_pair, habs, Bool.or_false, meaning_eq_foldl_names second, startOf, habs,
      meaning_eq_foldl_names first]
    rfl

/-- **A join leads where its segments lead, each followed from where the one before has
    led.** -/
theorem meaning_joined {segments : List Bytes} (h : segments ≠ []) (base : Location) :
    meaning (joined segments) base =
      segments.foldl (fun place segment => meaning segment place) base := by
  induction segments generalizing base with
  | nil => exact absurd rfl h
  | cons segment segments ih =>
    by_cases hne : segments = []
    · subst hne
      rw [joined_singleton]
      rfl
    · rw [joined_cons segment hne, meaning_pair, ih hne, List.foldl_cons]

/-- **Normalizing the segments of a join does not change its normal form.** -/
theorem normalize_join_map_normalize {segments : List Bytes} (h : segments ≠ []) :
    ∃ path path', join segments = .ok path ∧ join (segments.map normalize) = .ok path' ∧
      normalize path = normalize path' := by
  have hmap : segments.map normalize ≠ [] := by simpa using h
  refine ⟨joined segments, joined (segments.map normalize), join_eq_ok_joined h,
    join_eq_ok_joined hmap, ?_⟩
  apply normalize_eq_of_meaning_eq
  intro base
  rw [meaning_joined h, meaning_joined hmap, List.foldl_map]
  simp only [meaning_normalize]

theorem normalize_join_map_normalize_climbing :
    join [[0x61], [slash, 0x62], [], [dot, dot, slash, dot, dot, slash, 0x63]] =
        .ok [slash, 0x62, slash, dot, dot, slash, dot, dot, slash, 0x63] ∧
      ∃ path', join ([[0x61], [slash, 0x62], [], [dot, dot, slash, dot, dot, slash, 0x63]].map
          normalize) = .ok path' ∧
        normalize [slash, 0x62, slash, dot, dot, slash, dot, dot, slash, 0x63] =
          normalize path' := by
  obtain ⟨path, path', hjoin, hjoin', hsame⟩ := @normalize_join_map_normalize
    [[0x61], [slash, 0x62], [], [dot, dot, slash, dot, dot, slash, 0x63]] (by simp)
  have hpath : path = [slash, 0x62, slash, dot, dot, slash, dot, dot, slash, 0x63] :=
    Except.ok.inj (hjoin.symm.trans rfl)
  exact ⟨hpath ▸ hjoin, path', hjoin', hpath ▸ hsame⟩

end Path

end FileAccess
