/-
  FileAccess/Proofs/Path/Pairs.lean
  =================================
  **Joining many segments is joining two at a time.**

  `pair` joins two segments: the second alone when it is absolute, else after what the
  first contributes in front of it.  A join of many segments is the first of them paired
  with the join of the others (`joined_cons`), and pairing is associative
  (`pair_assoc`), so it does not matter which neighbours are joined first.

  Pairing treats its first segment as an anchor is treated: one separator is kept apart,
  and the run of separators at the end of the rest collapses into one.  A segment that
  has been joined already ends in at most the separator it was given, hence nothing more
  is lost when it comes first in another join.
-/
import FileAccess.Path.Join
import FileAccess.Proofs.Path.Scan
import Mathlib.Data.List.DropRight

namespace FileAccess

namespace Path

open Bytes

/-! ### Trailing separators -/

theorem isAbsolute_append {bs : Bytes} (hne : bs ≠ []) (cs : Bytes) :
    isAbsolute (bs ++ cs) = isAbsolute bs := by
  cases bs with
  | nil => exact absurd rfl hne
  | cons b bs => rfl

theorem dropTrailingSlashes_eq_rdropWhile (bs : Bytes) :
    dropTrailingSlashes bs = bs.rdropWhile (· == slash) := rfl

theorem dropTrailingSlashes_append (bs cs : Bytes) :
    dropTrailingSlashes (bs ++ cs) =
      if dropTrailingSlashes cs = [] then dropTrailingSlashes bs
      else bs ++ dropTrailingSlashes cs := by
  simp only [dropTrailingSlashes, List.reverse_append, List.dropWhile_append,
    List.reverse_eq_nil_iff, List.isEmpty_iff]
  split
  · rfl
  · rw [List.reverse_append, List.reverse_reverse]

theorem dropTrailingSlashes_ne_nil {bs : Bytes} (hne : bs ≠ []) (habs : isAbsolute bs = false) :
    dropTrailingSlashes bs ≠ [] := by
  obtain ⟨b, rest, rfl⟩ := List.exists_cons_of_ne_nil hne
  intro hnil
  have hb := List.rdropWhile_eq_nil_iff.1 hnil b (List.mem_cons_self ..)
  exact Bool.false_ne_true (habs.symm.trans hb)

/-! ### Two segments -/

/-- What the first of two segments contributes in front of the second: a separator that
    it starts with is kept apart. -/
def opening (segment : Bytes) : Bytes :=
  if isAbsolute segment then slash :: lead segment.tail else lead segment

def pair (first second : Bytes) : Bytes :=
  if isAbsolute second then second else opening first ++ second

theorem opening_slash_cons (tail : Bytes) : opening (slash :: tail) = slash :: lead tail := rfl

theorem opening_of_not_isAbsolute {segment : Bytes} (habs : isAbsolute segment = false) :
    opening segment = lead segment := by
  rw [opening, habs, if_neg Bool.false_ne_true]

theorem pair_of_isAbsolute (first : Bytes) {second : Bytes} (habs : isAbsolute second = true) :
    pair first second = second := by
  rw [pair, if_pos habs]

theorem pair_of_not_isAbsolute (first : Bytes) {second : Bytes}
    (habs : isAbsolute second = false) : pair first second = opening first ++ second := by
  rw [pair, habs, if_neg Bool.false_ne_true]

theorem lead_of_ne_nil {segment : Bytes} (h : segment ≠ []) :
    lead segment = dropTrailingSlashes segment ++ [slash] := by
  rw [lead, if_neg h]

theorem lead_lead (segment : Bytes) : lead (lead segment) = lead segment := by
  by_cases h : segment = []
  · rw [h]
    rfl
  · rw [lead_of_ne_nil h, lead_of_ne_nil (by simp), dropTrailingSlashes_eq_rdropWhile,
      List.rdropWhile_concat_pos _ _ _ rfl, dropTrailingSlashes_eq_rdropWhile,
      List.rdropWhile_idempotent]

theorem lead_append {bs cs : Bytes} (hne : cs ≠ []) (habs : isAbsolute cs = false) :
    lead (bs ++ cs) = bs ++ lead cs := by
  rw [lead_of_ne_nil (by simp [hne]), lead_of_ne_nil hne, dropTrailingSlashes_append,
    if_neg (dropTrailingSlashes_ne_nil hne habs), List.append_assoc]

theorem isAbsolute_lead {segment : Bytes} (habs : isAbsolute segment = false) :
    isAbsolute (lead segment) = false := by
  by_cases h : segment = []
  · rw [h]
    rfl
  · have hbody := dropTrailingSlashes_ne_nil h habs
    obtain ⟨rest, hrest⟩ : dropTrailingSlashes segment <+: segment :=
      List.rdropWhile_prefix _ segment
    rw [lead_of_ne_nil h, isAbsolute_append hbody, ← isAbsolute_append hbody rest, hrest, habs]

theorem isAbsolute_opening (segment : Bytes) :
    isAbsolute (opening segment) = isAbsolute segment := by
  cases habs : isAbsolute segment with
  | false => rw [opening_of_not_isAbsolute habs, isAbsolute_lead habs]
  | true =>
    obtain ⟨tail, rfl⟩ := isAbsolute_iff.1 habs
    rfl

theorem opening_opening (segment : Bytes) : opening (opening segment) = opening segment := by
  cases habs : isAbsolute segment with
  | false =>
    rw [opening_of_not_isAbsolute habs, opening_of_not_isAbsolute (isAbsolute_lead habs), lead_lead]
  | true =>
    obtain ⟨tail, rfl⟩ := isAbsolute_iff.1 habs
    rw [opening_slash_cons, opening_slash_cons, lead_lead]

theorem opening_append {bs cs : Bytes} (hne : cs ≠ []) (habs : isAbsolute cs = false) :
    opening (bs ++ cs) = bs ++ opening cs := by
  by_cases hbs : bs = []
  · subst hbs
    rfl
  · have happend := isAbsolute_append hbs cs
    rw [opening_of_not_isAbsolute habs]
    cases hslash : isAbsolute bs with
    | false =>
      rw [hslash] at happend
      rw [opening_of_not_isAbsolute happend, lead_append hne habs]
    | true =>
      obtain ⟨tail, rfl⟩ := isAbsolute_iff.1 hslash
      rw [List.cons_append, opening_slash_cons, lead_append hne habs, List.cons_append]

/-- What is led by a segment and then by another is led by the two of them paired. -/
theorem opening_opening_append {first second : Bytes} (habs : isAbsolute second = false) :
    opening (opening first ++ second) = opening first ++ opening second := by
  by_cases hne : second = []
  · subst hne
    rw [List.append_nil, opening_opening]
    exact (List.append_nil _).symm
  · exact opening_append hne habs

theorem isAbsolute_pair (first second : Bytes) :
    isAbsolute (pair first second) = (isAbsolute first || isAbsolute second) := by
  cases habs : isAbsolute second with
  | true => rw [pair_of_isAbsolute first habs, habs, Bool.or_true]
  | false =>
    rw [pair_of_not_isAbsolute first habs, Bool.or_false]
    by_cases hopening : opening first = []
    · rw [← isAbsolute_opening first, hopening, List.nil_append, habs]
      rfl
    · rw [isAbsolute_append hopening, isAbsolute_opening]

/-- **Pairing is associative.** -/
theorem pair_assoc (first second third : Bytes) :
    pair (pair first second) third = pair first (pair second third) := by
  cases hthird : isAbsolute third with
  | true => simp only [pair_of_isAbsolute _ hthird]
  | false =>
    have habs : isAbsolute (pair second third) = isAbsolute second := by
      rw [isAbsolute_pair, hthird, Bool.or_false]
    rw [pair_of_not_isAbsolute (pair first second) hthird]
    cases hsecond : isAbsolute second with
    | true =>
      rw [hsecond] at habs
      rw [pair_of_isAbsolute first hsecond, pair_of_isAbsolute first habs,
        pair_of_not_isAbsolute second hthird]
    | false =>
      rw [hsecond] at habs
      rw [pair_of_not_isAbsolute first hsecond, pair_of_not_isAbsolute first habs,
        pair_of_not_isAbsolute second hthird, opening_opening_append hsecond, List.append_assoc]

/-! ### Many segments -/

/-- What a join of segments writes, the empty list included. -/
def joined (segments : List Bytes) : Bytes :=
  match anchor? segments with
  | none => chain segments
  | some (anchor, after) => slash :: chain (anchor.tail :: after)

theorem join_eq_ok_joined {segments : List Bytes} (h : segments ≠ []) :
    join segments = .ok (joined segments) := by
  rw [join, if_neg h, joined]
  cases anchor? segments <;> rfl

theorem anchor?_cons (segment : Bytes) (segments : List Bytes) :
    anchor? (segment :: segments) =
      (anchor? segments).or (if isAbsolute segment then some (segment, segments) else none) := by
  cases hdrop : segments.reverse.dropWhile (fun s => !isAbsolute s) with
  | nil =>
    have htake : segments.reverse.takeWhile (fun s => !isAbsolute s) = segments.reverse := by
      have hsplit := List.takeWhile_append_dropWhile (p := fun s => !isAbsolute s)
        (l := segments.reverse)
      rwa [hdrop, List.append_nil] at hsplit
    have hnone : anchor? segments = none := by rw [anchor?, hdrop]
    rw [hnone, Option.none_or, anchor?, List.reverse_cons, List.dropWhile_append, hdrop,
      List.takeWhile_append, htake]
    cases habs : isAbsolute segment <;> simp [habs]
  | cons anchor rest =>
    have hshort : (segments.reverse.takeWhile (fun s => !isAbsolute s)).length ≠
        segments.reverse.length := by
      have hsplit := congrArg List.length
        (List.takeWhile_append_dropWhile (p := fun s => !isAbsolute s) (l := segments.reverse))
      rw [hdrop, List.length_append, List.length_cons] at hsplit
      omega
    simp only [anchor?, List.reverse_cons, List.dropWhile_append, hdrop, List.takeWhile_append,
      if_neg hshort, List.isEmpty_cons, Bool.false_eq_true, if_false, List.cons_append,
      Option.some_or]

theorem ne_nil_of_any {segments : List Bytes} (h : segments.any isAbsolute = true) :
    segments ≠ [] := by
  obtain ⟨segment, hmem, _⟩ := List.any_eq_true.1 h
  exact List.ne_nil_of_mem hmem

theorem anchor?_eq_none_iff {segments : List Bytes} :
    anchor? segments = none ↔ segments.any isAbsolute = false := by
  induction segments with
  | nil => simp [anchor?]
  | cons segment segments ih =>
    rw [anchor?_cons, Option.or_eq_none_iff, ih, List.any_cons, Bool.or_eq_false_iff, and_comm]
    simp

theorem any_isAbsolute_of_anchor?_eq_some {segments : List Bytes} {found : Bytes × List Bytes}
    (h : anchor? segments = some found) : segments.any isAbsolute = true := by
  rw [← Bool.not_eq_false, ← anchor?_eq_none_iff, h]
  exact Option.some_ne_none found

theorem chain_cons (segment : Bytes) {segments : List Bytes} (h : segments ≠ []) :
    chain (segment :: segments) = lead segment ++ chain segments := by
  cases segments with
  | nil => exact absurd rfl h
  | cons second others => rfl

theorem joined_singleton (segment : Bytes) : joined [segment] = segment := by
  rw [joined, anchor?_cons]
  cases habs : isAbsolute segment with
  | false => rfl
  | true =>
    obtain ⟨tail, rfl⟩ := isAbsolute_iff.1 habs
    rfl

/-- A join starts with a separator when one of its segments does, and only then. -/
theorem isAbsolute_joined (segments : List Bytes) :
    isAbsolute (joined segments) = segments.any isAbsolute := by
  cases hanchor : anchor? segments with
  | some found =>
    rw [joined, hanchor, any_isAbsolute_of_anchor?_eq_some hanchor]
    rfl
  | none =>
    have hany := anchor?_eq_none_iff.1 hanchor
    rw [joined, hanchor, hany]
    induction segments with
    | nil => rfl
    | cons segment segments ih =>
      rw [List.any_cons, Bool.or_eq_false_iff] at hany
      by_cases hne : segments = []
      · subst hne
        exact hany.1
      · have hrest : isAbsolute (chain segments) = false :=
          ih (anchor?_eq_none_iff.2 hany.2) hany.2
        show isAbsolute (chain (segment :: segments)) = false
        rw [chain_cons segment hne]
        by_cases hlead : lead segment = []
        · rw [hlead, List.nil_append, hrest]
        · rw [isAbsolute_append hlead, isAbsolute_lead hany.1]

/-- **A join is its first segment paired with the join of the others.** -/
theorem joined_cons (segment : Bytes) {segments : List Bytes} (h : segments ≠ []) :
    joined (segment :: segments) = pair segment (joined segments) := by
  have habs := isAbsolute_joined segments
  cases hanchor : anchor? segments with
  | some found =>
    rw [any_isAbsolute_of_anchor?_eq_some hanchor] at habs
    rw [pair_of_isAbsolute segment habs, joined, joined, anchor?_cons, hanchor, Option.some_or]
  | none =>
    rw [anchor?_eq_none_iff.1 hanchor] at habs
    rw [pair_of_not_isAbsolute segment habs, joined, joined, anchor?_cons, hanchor,
      Option.none_or, opening]
    cases isAbsolute segment with
    | false => exact chain_cons segment h
    | true =>
      show slash :: chain (segment.tail :: segments) = slash :: lead segment.tail ++ chain segments
      rw [chain_cons segment.tail h, List.cons_append]

theorem joined_append {segments others : List Bytes} (h : segments ≠ []) (hothers : others ≠ []) :
    joined (segments ++ others) = pair (joined segments) (joined others) := by
  induction segments with
  | nil => exact absurd rfl h
  | cons segment segments ih =>
    by_cases hne : segments = []
    · subst hne
      rw [List.singleton_append, joined_cons segment hothers, joined_singleton]
    · rw [List.cons_append, joined_cons segment (by simp [hne]), ih hne, joined_cons segment hne,
        pair_assoc]

/-! ### Blocks of segments -/

section Blocks

variable {blocks : List (List Bytes)}

theorem flatten_ne_nil (hne : blocks ≠ []) (hblocks : ∀ block ∈ blocks, block ≠ []) :
    blocks.flatten ≠ [] := by
  have hhead := List.head_mem hne
  exact List.flatten_ne_nil_iff.2 ⟨blocks.head hne, hhead, hblocks _ hhead⟩

theorem joined_map_joined (hblocks : ∀ block ∈ blocks, block ≠ []) :
    joined (blocks.map joined) = joined blocks.flatten := by
  induction blocks with
  | nil => rfl
  | cons block blocks ih =>
    have hrest : ∀ other ∈ blocks, other ≠ [] :=
      fun other hother => hblocks other (List.mem_cons_of_mem block hother)
    by_cases hne : blocks = []
    · subst hne
      rw [List.map_singleton, joined_singleton, List.flatten_singleton]
    · rw [List.map_cons, joined_cons _ (by simp [hne]), ih hrest, List.flatten_cons,
        joined_append (hblocks block (List.mem_cons_self ..)) (flatten_ne_nil hne hrest)]

theorem mapM_join_eq_ok (hblocks : ∀ block ∈ blocks, block ≠ []) :
    blocks.mapM join = .ok (blocks.map joined) := by
  induction blocks with
  | nil => rfl
  | cons block blocks ih =>
    have hblock := join_eq_ok_joined (hblocks block (List.mem_cons_self ..))
    rw [List.mapM_cons, hblock, ih fun other hother => hblocks other (List.mem_cons_of_mem _ hother)]
    rfl

/-- **Joining is associative over grouping.**  However a list of segments is cut into
    blocks, joining each block and then the results succeeds and writes what one join of
    the whole list writes. -/
theorem join_blocks_eq_join_flatten (hne : blocks ≠ [])
    (hblocks : ∀ block ∈ blocks, block ≠ []) :
    ∃ path, (blocks.mapM join >>= join) = .ok path ∧ join blocks.flatten = .ok path := by
  refine ⟨joined blocks.flatten, ?_, join_eq_ok_joined (flatten_ne_nil hne hblocks)⟩
  rw [mapM_join_eq_ok hblocks]
  show join (blocks.map joined) = _
  rw [join_eq_ok_joined (by simp [hne]), joined_map_joined hblocks]

theorem join_blocks_eq_join_flatten_slashRun :
    ([[[0x61], [slash, slash]], [[], [0x62, slash], []], [[0x63, slash, slash]]].mapM join >>=
        join) = .ok [slash, slash, 0x62, slash, 0x63, slash, slash] ∧
      join [[0x61], [slash, slash], [], [0x62, slash], [], [0x63, slash, slash]] =
        .ok [slash, slash, 0x62, slash, 0x63, slash, slash] := by
  obtain ⟨path, hblocks, hwhole⟩ := @join_blocks_eq_join_flatten
    [[[0x61], [slash, slash]], [[], [0x62, slash], []], [[0x63, slash, slash]]] (by simp) (by simp)
  have hpath : path = [slash, slash, 0x62, slash, 0x63, slash, slash] :=
    Except.ok.inj (hwhole.symm.trans rfl)
  exact ⟨hpath ▸ hblocks, hpath ▸ hwhole⟩

end Blocks

end Path

end FileAccess
