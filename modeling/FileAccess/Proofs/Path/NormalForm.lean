/-
  FileAccess/Proofs/Path/NormalForm.lean
  ======================================
  **The normal forms, as a grammar.**

  `IsNormal` lists the normal forms without speaking of any normalization: `.`, the
  root, names below the root, and `..`s followed by names.  Such a path is what a stack
  of the shape `Layers` writes, and nothing else is (`isNormal_iff_layers`).

  A path is normalized to what its stack writes, hence to a normal form.  In the other
  direction, reading what a stack writes gives that stack back (`Layers.foldl_keep`):
  its `..`s come first, where there is no name to take back.  So the normal forms are
  the paths that normalization leaves as they are.
-/
import FileAccess.Proofs.Path.Meaning

namespace FileAccess

namespace Path

open Bytes

/-! ### The grammar -/

/-- The normal forms.  A relative one may climb before its names, and has one segment
    at least. -/
inductive IsNormal : Bytes → Prop where
  | here : IsNormal [dot]
  | root : IsNormal [slash]
  | belowRoot {names : List Bytes} (hne : names ≠ []) (hnames : ∀ name ∈ names, IsName name) :
      IsNormal (slash :: [slash].intercalate names)
  | relative {climbs : Nat} {names : List Bytes} (hne : 0 < climbs ∨ names ≠ [])
      (hnames : ∀ name ∈ names, IsName name) :
      IsNormal ([slash].intercalate (List.replicate climbs [dot, dot] ++ names))

variable {absolute : Bool} {climbs : Nat} {above stack : List Bytes}

theorem render_true (kept : List Bytes) :
    render true kept = slash :: [slash].intercalate kept := by
  simp [render]

theorem render_false_of_ne_nil {kept : List Bytes} (h : [slash].intercalate kept ≠ []) :
    render false kept = [slash].intercalate kept := by
  simp [render, h]

theorem intercalate_ne_nil {segments : List Bytes} (hne : segments ≠ [])
    (hsegments : ∀ segment ∈ segments, segment ≠ []) : [slash].intercalate segments ≠ [] := by
  cases segments with
  | nil => exact absurd rfl hne
  | cons first others =>
    have hfirst := hsegments first (by simp)
    cases others with
    | nil => simpa using hfirst
    | cons second others => simp [List.intercalate_cons_cons, hfirst]

/-- A stack that is not empty is written in a relative path as its segments are. -/
theorem Layers.render_relative (h : Layers false climbs above stack) (hne : stack ≠ []) :
    render false stack.reverse = [slash].intercalate stack.reverse := by
  apply render_false_of_ne_nil
  apply intercalate_ne_nil
  · simpa using hne
  · intro segment hsegment
    exact h.ne_nil_of_mem (List.mem_reverse.1 hsegment)

theorem Layers.reverse_eq (h : Layers absolute climbs above stack) :
    stack.reverse = List.replicate climbs [dot, dot] ++ above.reverse := by
  rw [h.stack_eq, List.reverse_append, List.reverse_replicate]

theorem Layers.isNormal_render (h : Layers absolute climbs above stack) :
    IsNormal (render absolute stack.reverse) := by
  have hnames : ∀ name ∈ above.reverse, IsName name := by
    intro name hname
    exact h.isName name (List.mem_reverse.1 hname)
  cases absolute with
  | true =>
    rw [render_true, h.reverse_eq, h.climbs_eq rfl]
    by_cases hne : above.reverse = []
    · rw [hne]
      exact .root
    · exact .belowRoot hne hnames
  | false =>
    by_cases hne : stack = []
    · subst hne
      exact .here
    · rw [h.render_relative hne, h.reverse_eq]
      apply IsNormal.relative _ hnames
      rw [h.stack_eq] at hne
      rcases Nat.eq_zero_or_pos climbs with rfl | hclimbs
      · right
        simpa using hne
      · exact Or.inl hclimbs

/-- **The normal forms are what stacks write.** -/
theorem isNormal_iff_layers {path : Bytes} :
    IsNormal path ↔ ∃ absolute climbs above stack,
      Layers absolute climbs above stack ∧ path = render absolute stack.reverse := by
  constructor
  · intro hpath
    cases hpath with
    | here => exact ⟨false, 0, [], [], .nil false, rfl⟩
    | root => exact ⟨true, 0, [], [], .nil true, rfl⟩
    | @belowRoot names hne hnames =>
      refine ⟨true, 0, names.reverse, names.reverse, ⟨by simp, ?_, fun _ => rfl⟩, ?_⟩
      · simpa using hnames
      · rw [render_true, List.reverse_reverse]
    | @relative climbs names hne hnames =>
      have hlayers : Layers false climbs names.reverse
          (names.reverse ++ List.replicate climbs [dot, dot]) :=
        ⟨rfl, by simpa using hnames, by simp⟩
      refine ⟨false, climbs, _, _, hlayers, ?_⟩
      rw [hlayers.render_relative, hlayers.reverse_eq, List.reverse_reverse]
      rcases hne with hclimbs | hne
      · simp [Nat.ne_of_gt hclimbs]
      · simp [hne]
  · rintro ⟨absolute, climbs, above, stack, hlayers, rfl⟩
    exact hlayers.isNormal_render

/-! ### Reading what a stack writes -/

theorem foldl_keep_names (h : ∀ name ∈ above, IsName name) :
    above.reverse.foldl (keep absolute) stack = above ++ stack := by
  induction above with
  | nil => rfl
  | cons name above ih =>
    have habove : ∀ other ∈ above, IsName other := by
      intro other hother
      exact h other (List.mem_cons_of_mem name hother)
    rw [List.reverse_cons, List.foldl_append, ih habove, List.foldl_cons, List.foldl_nil,
      (h name (List.mem_cons_self ..)).keep_eq, List.cons_append]

theorem foldl_keep_climbs (climbs : Nat) :
    (List.replicate climbs [dot, dot]).foldl (keep false) [] =
      List.replicate climbs [dot, dot] := by
  induction climbs with
  | zero => rfl
  | succ climbs ih =>
    have hlayers : Layers false climbs [] (List.replicate climbs [dot, dot]) :=
      ⟨rfl, by simp, by simp⟩
    rw [List.replicate_succ', List.foldl_append, ih, List.foldl_cons, List.foldl_nil,
      hlayers.keep_dotDot_climb.1, ← List.replicate_succ, List.replicate_succ']

/-- A stack read from the bottom is that stack again. -/
theorem Layers.foldl_keep (h : Layers absolute climbs above stack) :
    stack.reverse.foldl (keep absolute) [] = stack := by
  have hclimbs : (List.replicate climbs [dot, dot]).foldl (keep absolute) [] =
      List.replicate climbs [dot, dot] := by
    cases absolute with
    | true =>
      rw [h.climbs_eq rfl]
      rfl
    | false => exact foldl_keep_climbs climbs
  rw [h.reverse_eq, List.foldl_append, hclimbs, foldl_keep_names h.isName, h.stack_eq]

theorem Layers.normalize_render (h : Layers absolute climbs above stack) :
    normalize (render absolute stack.reverse) = render absolute stack.reverse := by
  have hsegments : ∀ segment ∈ stack.reverse, IsName segment ∨ segment = [dot, dot] := by
    intro segment hsegment
    exact h.isName_or_dotDot (List.mem_reverse.1 hsegment)
  have hkept : kept (render absolute stack.reverse) = stack.reverse := by
    rw [kept, names_render hsegments, isAbsolute_render hsegments, h.foldl_keep]
  rw [normalize_eq_render, hkept, isAbsolute_render hsegments]

/-! ### The image of normalization -/

theorem isNormal_normalize (path : Bytes) : IsNormal (normalize path) := by
  obtain ⟨climbs, above, hlayers, _⟩ := meaning_eq_landing path
  rw [normalize_eq_render, ← List.reverse_reverse (kept path)]
  exact hlayers.isNormal_render

theorem IsNormal.normalize_eq {path : Bytes} (h : IsNormal path) : normalize path = path := by
  obtain ⟨absolute, climbs, above, stack, hlayers, rfl⟩ := isNormal_iff_layers.1 h
  exact hlayers.normalize_render

/-- **The image of normalization is the set of its fixed points, and both are the
    grammar.**  A second normalization changes nothing, and a normal form is absolute
    when its path is. -/
theorem normalize_fixed_iff_isNormal (path : Bytes) :
    IsNormal (normalize path) ∧ (normalize path = path ↔ IsNormal path) ∧
      ((∃ origin, normalize origin = path) ↔ IsNormal path) ∧
      normalize (normalize path) = normalize path ∧
      ((∃ rest, normalize path = slash :: rest) ↔ ∃ rest, path = slash :: rest) := by
  have hnormal := isNormal_normalize path
  have hfixed : normalize path = path → IsNormal path := by
    intro hpath
    rw [← hpath]
    exact hnormal
  refine ⟨hnormal, ⟨hfixed, IsNormal.normalize_eq⟩, ⟨?_, ?_⟩, hnormal.normalize_eq, ?_⟩
  · rintro ⟨origin, rfl⟩
    exact isNormal_normalize origin
  · intro hpath
    exact ⟨path, hpath.normalize_eq⟩
  · rw [← isAbsolute_iff, ← isAbsolute_iff, isAbsolute_normalize]

end Path

end FileAccess
