/-
  FileAccess/Proofs/Path/Layout.lean
  ==================================
  **What a scan has written where a segment starts.**

  The output of a scan is one list of octets, and its depth is one number.  This file
  shows how the two belong together (`Layout`): where a segment starts, the output is the
  root's separator in an absolute path, then the `..`s that were kept, then as many names
  as the depth counts, each of these with a separator after it.  So the search for the
  separator before the last one finds the start of the last name, and a `..` takes back
  that name and nothing else.

  The positions that the scan can have (`Head`) say what the output is, but not where in
  the path the scan stands.  `Place` adds this: the output breaks off at a separator where
  what was read does, and everywhere else but at the end of the path a name has just been
  read.  Hence a separator that the loop meets opens the path or ends a name; those after
  `.`, after `..` and after another separator have been skipped.
-/
import FileAccess.Proofs.Path.Buffer

namespace FileAccess

namespace Path

open Bytes

/-! ### Where a part of a path ends -/

/-- A part of a path after which a segment starts: nothing, or a part that a separator
    ends. -/
def SegmentStart (read : Bytes) : Prop :=
  read = [] ∨ ∃ before, read = before ++ [slash]

/-- A part of a path that ends in a name, from where its segment starts. -/
def EndsInName (read : Bytes) : Prop :=
  ∃ before name, read = before ++ name ∧ SegmentStart before ∧ IsName name

theorem SegmentStart.not_endsInName {read : Bytes} (h : SegmentStart read) :
    ¬ EndsInName read := by
  rintro ⟨before, name, hread, _, hname⟩
  obtain ⟨b, bs, hlast, hb⟩ := hname.exists_reverse_eq_cons
  have hreverse : read.reverse = b :: (bs ++ before.reverse) := by
    rw [hread, List.reverse_append, hlast, List.cons_append]
  rcases h with rfl | ⟨front, rfl⟩
  · cases hreverse
  · rw [List.reverse_append, List.reverse_singleton, List.singleton_append] at hreverse
    exact hb (List.cons.inj hreverse).1.symm

/-- An output (last octet first) that ends in a name does not break off. -/
theorem IsName.not_breaks {name : Bytes} (h : IsName name) (out : Bytes) :
    ¬ Breaks (name.reverse ++ out) := by
  obtain ⟨b, bs, hlast, hb⟩ := h.exists_reverse_eq_cons
  rw [hlast]
  simp [Breaks, isAbsolute, hb]

theorem take_slashRun (bs : Bytes) : bs.take (slashRun bs) = List.replicate (slashRun bs) slash := by
  have htake : bs.take (slashRun bs) = bs.takeWhile (· == slash) :=
    (List.prefix_iff_eq_take.1 (List.takeWhile_prefix _)).symm
  rw [htake]
  refine List.eq_replicate_iff.2 ⟨rfl, fun b hb => ?_⟩
  simpa using List.all_eq_true.1 List.all_takeWhile b hb

/-- A segment starts after a run of separators. -/
theorem segmentStart_append_slashRun (read : Bytes) {bs : Bytes} (h : isAbsolute bs = true) :
    SegmentStart (read ++ bs.take (slashRun bs)) := by
  obtain ⟨tail, rfl⟩ := isAbsolute_iff.1 h
  obtain ⟨n, hn⟩ := Nat.exists_eq_succ_of_ne_zero (Nat.ne_of_gt (Scan.slashRun_pos tail))
  refine Or.inr ⟨read ++ List.replicate n slash, ?_⟩
  rw [take_slashRun, hn, List.replicate_succ', List.append_assoc]

namespace Scan

variable {path : Bytes} {s : Scan}

/-! ### Where the scan stands -/

/-- Where the scan stands at the head of its loop.  Between two segments, the output (last
    octet first) is empty or ends in a separator. -/
inductive Place (path : Bytes) (s : Scan) : Prop where
  | between (hread : SegmentStart (path.take s.pos) ∨ s.rest = []) (hout : Breaks s.out)
  | afterName (hread : EndsInName (path.take s.pos)) (hrest : Breaks s.rest)

theorem take_pos_add (h : s.rest = path.drop s.pos) (n : Nat) :
    path.take (s.pos + n) = path.take s.pos ++ s.rest.take n := by
  rw [h, List.take_add]

/-- A segment and the separators after it are read, and the output breaks off already. -/
theorem place_advance {segment tail : Bytes} (hread : s.rest = path.drop s.pos)
    (hout : Breaks s.out) (hrest : s.rest = segment ++ tail) (htail : Breaks tail) :
    Place path (s.advance (segment.length + slashRun tail)) := by
  refine .between ?_ hout
  rcases htail with rfl | habs
  · right
    simp [advance, hrest]
  · left
    have hskip : s.rest.take (segment.length + slashRun tail) =
        segment ++ tail.take (slashRun tail) := by
      rw [hrest, List.take_length_add_append]
    show SegmentStart (path.take (s.pos + (segment.length + slashRun tail)))
    rw [take_pos_add hread, hskip, ← List.append_assoc]
    exact segmentStart_append_slashRun _ habs

theorem Place.step (h : Place path s) (hread : s.rest = path.drop s.pos) (hs : s.rest ≠ [])
    (absolute : Bool) : Place path (step absolute s) := by
  by_cases habs : isAbsolute s.rest = true
  · obtain ⟨tail, hrest⟩ := isAbsolute_iff.1 habs
    rw [step_slash absolute hrest, ← hrest]
    refine .between (Or.inl ?_) (Or.inr rfl)
    show SegmentStart (path.take (s.pos + slashRun s.rest))
    rw [take_pos_add hread]
    exact segmentStart_append_slashRun _ habs
  · rw [Bool.not_eq_true] at habs
    obtain ⟨segment, tail, hrest, hne, hfree, htail⟩ := exists_segment_append hs habs
    cases h with
    | afterName _ hbreaks =>
      -- what comes after a name is its separator, and that is no segment
      exact absurd (hbreaks.resolve_left hs) (by simp [habs])
    | between hstart hout =>
      rw [step_segment absolute hrest hne hfree htail]
      by_cases hdot : segment = [dot]
      · rw [if_pos hdot]
        exact place_advance hread hout hrest htail
      · rw [if_neg hdot]
        by_cases hup : segment = [dot, dot]
        · rw [if_pos hup]
          split
          · exact place_advance hread (breaks_dropWhile _) hrest htail
          · split
            · exact place_advance hread hout hrest htail
            · exact place_advance hread (Or.inr rfl) hrest htail
        · rw [if_neg hup]
          refine .afterName ⟨path.take s.pos, segment, ?_, hstart.resolve_right hs,
            hne, hdot, hup, hfree⟩ ?_
          · show path.take (s.pos + segment.length) = path.take s.pos ++ segment
            rw [take_pos_add hread, hrest, List.take_left]
          · simpa [advance, write, hrest] using htail

theorem AtHead.place (h : AtHead path s) : Place path s := by
  induction h with
  | first => exact .between (Or.inl (Or.inl rfl)) (Or.inl rfl)
  | next h hs ih => exact ih.step h.fits.rest_eq hs (isAbsolute path)

theorem AtHead.exists_head (h : AtHead path s) : ∃ stack, Head (isAbsolute path) stack s := by
  induction h with
  | first => exact ⟨[], head_start path⟩
  | next _ hs ih =>
    obtain ⟨stack, hhead⟩ := ih
    obtain ⟨stack', hhead', _⟩ := hhead.step hs
    exact ⟨stack', hhead'⟩

/-! ### What has been written -/

/-- The output of a scan, in the order in which it was written: the root's separator once
    an absolute path has been begun, `climbs` times `..`, and as many names as the depth
    counts, each of these with a separator after it.  An absolute path keeps no `..`. -/
structure Layout (path : Bytes) (s : Scan) (climbs : Nat) (names : List Bytes) : Prop where
  out_eq : s.out.reverse =
    (if isAbsolute path = true ∧ 0 < s.pos then [slash] else []) ++
      (List.replicate climbs [dot, dot, slash]).flatten ++
      names.flatMap fun name => name ++ [slash]
  climbs_eq : isAbsolute path = true → climbs = 0
  isName : ∀ name ∈ names, IsName name
  depth_eq : s.depth = names.length

theorem layout_of_layers {climbs : Nat} {above stack : List Bytes}
    (layers : Layers (isAbsolute path) climbs above stack)
    (hout : s.out = written (isAbsolute path) stack) (hdepth : s.depth = above.length)
    (hpos : isAbsolute path = true → 0 < s.pos) : Layout path s climbs above.reverse := by
  constructor
  case out_eq =>
    have hroot : (isAbsolute path = true ∧ 0 < s.pos) = (isAbsolute path = true) :=
      propext (and_iff_left_of_imp hpos)
    rw [hout, reverse_written, layers.reverse_eq, List.flatMap_append, List.flatMap_replicate]
    simp only [hroot, List.append_assoc, List.cons_append, List.nil_append]
  case climbs_eq => exact layers.climbs_eq
  case isName =>
    intro name hname
    exact layers.isName name (List.mem_reverse.1 hname)
  case depth_eq => rw [hdepth, List.length_reverse]

/-- An absolute path has been begun once a segment can start. -/
theorem Fits.pos_pos (h : Fits path s) (hrest : isAbsolute s.rest = false)
    (habsolute : isAbsolute path = true) : 0 < s.pos := by
  apply Nat.pos_of_ne_zero
  intro hzero
  rw [h.rest_eq, hzero, List.drop_zero, habsolute] at hrest
  cases hrest

/-- Between two segments the whole output is laid out, at the end of the path too. -/
theorem AtHead.exists_layout (h : AtHead path s) (hout : Breaks s.out) :
    ∃ climbs names, Layout path s climbs names := by
  obtain ⟨stack, hhead⟩ := h.exists_head
  cases hhead with
  | root habsolute => exact ⟨0, [], by simp [start], fun _ => rfl, by simp, rfl⟩
  | between layers hwritten hdepth hrest =>
    exact ⟨_, _, layout_of_layers layers hwritten hdepth (h.fits.pos_pos hrest)⟩
  | afterName layers hname hwritten hdepth hpos hrest =>
    rw [hwritten] at hout
    exact absurd hout (hname.not_breaks _)

/-! ### Taking a name back -/

/-- A `..` with something to take back cuts off the last name with its separator. -/
theorem AtHead.takesBack {tail : Bytes} (h : AtHead path s)
    (hrest : s.rest = [dot, dot] ++ tail) (htail : Breaks tail) (hdepth : 0 < s.depth) :
    ∃ climbs names name, Layout path s climbs (names ++ [name]) ∧
      Layout path (step (isAbsolute path) s) climbs names ∧
      s.out.reverse = (step (isAbsolute path) s).out.reverse ++ (name ++ [slash]) := by
  have hsegment : isAbsolute s.rest = false := by
    rw [hrest]
    rfl
  have hs : s.rest ≠ [] := by
    rw [hrest]
    exact List.cons_ne_nil _ _
  have hpos := h.fits.pos_pos hsegment
  have hstep : step (isAbsolute path) s = s.cutBack.advance (2 + slashRun tail) := by
    rw [step_segment _ hrest (by decide) (by decide) htail, if_neg (by decide), if_pos rfl,
      if_pos hdepth]
    rfl
  obtain ⟨stack, hhead⟩ := h.exists_head
  obtain ⟨climbs, above, layers, hwritten, hcount⟩ := hhead.exists_layers hs hsegment
  -- the depth counts the names above the climbs, so there is one on top
  obtain ⟨name, above, rfl⟩ := List.exists_cons_of_length_pos (hcount ▸ hdepth)
  have hcut := cutBack_out_of_layers layers hwritten
  have hupper := layout_of_layers layers hwritten hcount hpos
  rw [List.reverse_cons] at hupper
  refine ⟨climbs, above.reverse, name, hupper, ?_, ?_⟩
  · rw [hstep]
    refine layout_of_layers layers.keep_dotDot_cons hcut ?_ ?_
    · simp [advance, cutBack, hcount]
    · intro habsolute
      exact Nat.add_pos_left (hpos habsolute) _
  · rw [hstep, hwritten, layers.stack_eq_cons, written_cons, ← hcut]
    simp [advance]

/-! ### Separators that the loop meets -/

/-- A separator is met at the start of the path or right after a name. -/
theorem AtHead.pos_eq_zero_or_endsInName {tail : Bytes} (h : AtHead path s)
    (hrest : s.rest = slash :: tail) : s.pos = 0 ∨ EndsInName (path.take s.pos) := by
  cases h.place with
  | afterName hread _ => exact Or.inr hread
  | between _ hout =>
    left
    obtain ⟨stack, hhead⟩ := h.exists_head
    cases hhead with
    | root habsolute => rfl
    | between layers hwritten hdepth hstart =>
      rw [hrest] at hstart
      simp [isAbsolute] at hstart
    | afterName layers hname hwritten hdepth hpos hbreaks =>
      rw [hwritten] at hout
      exact absurd hout (hname.not_breaks _)

theorem depth_step_le (absolute : Bool) (hs : s.rest ≠ []) (hrest : isAbsolute s.rest = false) :
    (step absolute s).depth ≤ s.depth := by
  obtain ⟨segment, tail, hsplit, hne, hfree, htail⟩ := exists_segment_append hs hrest
  rw [step_segment absolute hsplit hne hfree htail]
  repeat' split
  all_goals simp [advance, write, cutBack]

/-- The depth counts separators that end a name, and no others. -/
theorem AtHead.depth_lt_step_iff (h : AtHead path s) (hs : s.rest ≠ []) :
    s.depth < (step (isAbsolute path) s).depth ↔
      (∃ tail, s.rest = slash :: tail) ∧ EndsInName (path.take s.pos) := by
  constructor
  · intro hlt
    by_cases habs : isAbsolute s.rest = true
    · obtain ⟨tail, hrest⟩ := isAbsolute_iff.1 habs
      refine ⟨⟨tail, hrest⟩, (h.pos_eq_zero_or_endsInName hrest).resolve_left ?_⟩
      intro hzero
      rw [step_slash _ hrest, if_pos hzero] at hlt
      exact Nat.lt_irrefl _ hlt
    · rw [Bool.not_eq_true] at habs
      exact absurd hlt (Nat.not_lt.2 (depth_step_le _ hs habs))
  · rintro ⟨⟨tail, hrest⟩, hname⟩
    have hpos : s.pos ≠ 0 := by
      intro hzero
      rw [hzero, List.take_zero] at hname
      exact SegmentStart.not_endsInName (Or.inl rfl) hname
    rw [step_slash _ hrest, if_neg hpos]
    exact Nat.lt_succ_self _

end Scan

/-- What the scan of a path keeps at every head of its loop. -/
structure KeepsLayout (path : Bytes) : Prop where
  /-- Where a segment starts, the output is the root's separator, kept `..`s and as many
      names as the depth counts. -/
  layout : ∀ s, Scan.AtHead path s → SegmentStart (path.take s.pos) →
    ∃ climbs names, Scan.Layout path s climbs names
  /-- A `..` that finds something counted finds the output ending in a separator. -/
  out_endsInSlash : ∀ s tail, Scan.AtHead path s → s.rest = [dot, dot] ++ tail → Breaks tail →
    0 < s.depth → ∃ body, s.out.reverse = body ++ [slash]
  /-- It takes back the last name with that separator, and leaves what stands before it. -/
  takesBack : ∀ s tail, Scan.AtHead path s → s.rest = [dot, dot] ++ tail → Breaks tail →
    0 < s.depth → ∃ climbs names name, Scan.Layout path s climbs (names ++ [name]) ∧
      Scan.Layout path (Scan.step (isAbsolute path) s) climbs names ∧
      s.out.reverse = (Scan.step (isAbsolute path) s).out.reverse ++ (name ++ [slash])
  /-- A separator that is met opens the path or ends a name, -/
  slash_met : ∀ s tail, Scan.AtHead path s → s.rest = slash :: tail →
    s.pos = 0 ∨ EndsInName (path.take s.pos)
  /-- and the depth counts those that end a name. -/
  depth_lt_step_iff : ∀ s, Scan.AtHead path s → s.rest ≠ [] →
    (s.depth < (Scan.step (isAbsolute path) s).depth ↔
      (∃ tail, s.rest = slash :: tail) ∧ EndsInName (path.take s.pos))

/-- **The depth counts the names at the end of the output**, at every head of the loop where
    a segment starts, and `..` takes back just the last of them. -/
theorem normalize_keepsLayout (path : Bytes) : KeepsLayout path := by
  constructor
  case layout =>
    intro s h hstart
    cases h.place with
    | between _ hout => exact h.exists_layout hout
    | afterName hread _ => exact absurd hread hstart.not_endsInName
  case out_endsInSlash =>
    intro s tail h hrest htail hdepth
    obtain ⟨_, _, name, _, _, hout⟩ := h.takesBack hrest htail hdepth
    exact ⟨_, by rw [hout, ← List.append_assoc]⟩
  case takesBack =>
    intro s tail h hrest htail hdepth
    exact h.takesBack hrest htail hdepth
  case slash_met =>
    intro s tail h hrest
    exact h.pos_eq_zero_or_endsInName hrest
  case depth_lt_step_iff =>
    intro s h hs
    exact h.depth_lt_step_iff hs

/-- The last `..` of `../a/..` is met with one name to take back, after a `..` that stays. -/
example :
    Scan.AtHead [dot, dot, slash, 0x61, slash, dot, dot]
      ⟨5, [dot, dot], [slash, 0x61, slash, dot, dot], 1⟩ :=
  .next (.next (.next .first (by decide)) (by decide)) (by decide)

end Path

end FileAccess
