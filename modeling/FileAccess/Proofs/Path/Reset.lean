/-
  FileAccess/Proofs/Path/Reset.lean
  =================================
  **An absolute segment resets a join.**

  Nothing that stands before an absolute segment has a part in the join, for pairing
  drops its first segment when the second is absolute (`joined_append_of_any`).

  Where no later segment is absolute the join starts with the absolute one: it is that
  segment when it is the last, and else it starts with the segment's body, the part in
  front of its trailing separators, and one separator (`body_slash_prefix_joined`).
-/
import FileAccess.Proofs.Path.Concatenation

namespace FileAccess

namespace Path

open Bytes

/-- What stands before an absolute segment is not written. -/
theorem joined_append_of_any (before : List Bytes) {segments : List Bytes}
    (h : segments.any isAbsolute = true) : joined (before ++ segments) = joined segments := by
  by_cases hne : before = []
  · rw [hne, List.nil_append]
  · rw [joined_append hne (ne_nil_of_any h),
      pair_of_isAbsolute _ (by rw [isAbsolute_joined, h])]

/-- The separator that a run leaves too many stands behind what the run contributes. -/
theorem contribution_prefix_opening (segment : Bytes) :
    contribution segment <+: opening segment := by
  by_cases hrun : ∃ length, segment = List.replicate (length + 2) slash
  · obtain ⟨length, rfl⟩ := hrun
    have hbody : dropTrailingSlashes (List.replicate (length + 1) slash) = [] := by
      rw [dropTrailingSlashes_eq_nil_iff, List.length_replicate]
    have hcontribution : contribution (List.replicate (length + 2) slash) = [slash] := by
      rw [List.replicate_succ, contribution_slash_cons, if_pos hbody]
    exact ⟨[slash], by simp [opening_replicate, hcontribution]⟩
  · have hopening := opening_eq_contribution fun length hlength => hrun ⟨length, hlength⟩
    exact ⟨[], by simp [hopening]⟩

/-- An absolute segment that others follow, none of them absolute, starts the join with
    its body and one separator. -/
theorem body_slash_prefix_joined {segment : Bytes} {after : List Bytes}
    (habs : isAbsolute segment = true) (hne : after ≠ []) (hafter : after.any isAbsolute = false) :
    segment.rdropWhile (· == slash) ++ [slash] <+: joined (segment :: after) := by
  obtain ⟨tail, rfl⟩ := isAbsolute_iff.1 habs
  have hcontribution : contribution (slash :: tail) =
      (slash :: tail).rdropWhile (· == slash) ++ [slash] := if_neg (List.cons_ne_nil slash tail)
  rw [joined_cons_of_not_any _ hne hafter, ← hcontribution]
  exact (contribution_prefix_opening _).trans (List.prefix_append _ _)

/-- **An absolute segment resets a join.**  A join is absolute exactly when one of its
    segments is.  What stands before an absolute segment makes no difference; and where no
    later segment is absolute, the join starts with that segment up to the separators at
    its end, and goes on with a separator if other segments follow. -/
theorem join_resetsAtAbsolute :
    (∀ segments : List Bytes, segments ≠ [] → ∃ path, join segments = .ok path ∧
      (isAbsolute path = true ↔ ∃ segment ∈ segments, isAbsolute segment = true)) ∧
    ∀ (before : List Bytes) (segment : Bytes) (after : List Bytes), isAbsolute segment = true →
      ∃ path, join (before ++ [segment] ++ after) = .ok path ∧
        join ([segment] ++ after) = .ok path ∧
        ((∀ later ∈ after, isAbsolute later = false) →
          segment.rdropWhile (· == slash) <+: path ∧
          (after = [] → path = segment) ∧
          (after ≠ [] → segment.rdropWhile (· == slash) ++ [slash] <+: path)) := by
  constructor
  · intro segments hne
    refine ⟨joined segments, join_eq_ok_joined hne, ?_⟩
    rw [isAbsolute_joined, List.any_eq_true]
  · intro before segment after habs
    have hany : ([segment] ++ after).any isAbsolute = true := by
      rw [List.singleton_append, List.any_cons, habs, Bool.true_or]
    refine ⟨joined ([segment] ++ after), ?_, join_eq_ok_joined (by simp), ?_⟩
    · rw [join_eq_ok_joined (by simp), List.append_assoc, joined_append_of_any before hany]
    · intro hlater
      by_cases hlast : after = []
      · subst hlast
        rw [List.append_nil, joined_singleton]
        exact ⟨List.rdropWhile_prefix _ segment, fun _ => rfl, fun hne => absurd rfl hne⟩
      · have hstart := body_slash_prefix_joined habs hlast (by simpa using hlater)
        exact ⟨(List.prefix_append _ _).trans hstart, fun hnil => absurd hnil hlast,
          fun _ => hstart⟩

theorem join_resetsAtAbsolute_trailingSlashes :
    join ([[slash, 0x61], [0x62, slash]] ++ [[slash, 0x63, slash, slash]] ++ [[], [0x64]]) =
        .ok [slash, 0x63, slash, 0x64] ∧
      join ([[slash, 0x63, slash, slash]] ++ [[], [0x64]]) = .ok [slash, 0x63, slash, 0x64] ∧
      isAbsolute [slash, 0x63, slash, 0x64] = true ∧
      [slash, 0x63, slash] <+: [slash, 0x63, slash, 0x64] := by
  obtain ⟨habsolute, hresets⟩ := join_resetsAtAbsolute
  obtain ⟨path, hwhole, hrest, hstart⟩ := hresets [[slash, 0x61], [0x62, slash]]
    [slash, 0x63, slash, slash] [[], [0x64]] rfl
  obtain ⟨path', hwhole', hiff⟩ := habsolute
    ([[slash, 0x61], [0x62, slash]] ++ [[slash, 0x63, slash, slash]] ++ [[], [0x64]]) (by simp)
  obtain rfl : path' = path := Except.ok.inj (hwhole'.symm.trans hwhole)
  have hpath : path' = [slash, 0x63, slash, 0x64] := Except.ok.inj (hwhole.symm.trans rfl)
  rw [hpath] at hwhole hrest hstart hiff
  exact ⟨hwhole, hrest, hiff.2 ⟨[slash, 0x61], by simp, rfl⟩,
    (hstart (by decide)).2.2 (by simp)⟩

end Path

end FileAccess
