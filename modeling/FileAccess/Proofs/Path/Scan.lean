/-
  FileAccess/Proofs/Path/Scan.lean
  ================================
  **The scan writes the normal form.**

  At the head of its loop the scan is in one of three positions (`Head`): before the
  separator that an absolute path starts with, at the start of a segment, or right
  after a name.  In each of them the output is determined by a stack of segments, and
  the depth is the number of names on it.  One turn goes from one such position to
  another, and the stack that the segments still to read would leave stays the same
  (`Head.step`); so the path written at the end is the stack of the whole path.
-/
import FileAccess.Proofs.Path.Stack

namespace FileAccess

namespace Path

open Bytes
open FileAccess.Tree (names)

/-! ### Where segments end -/

def Breaks (tail : Bytes) : Prop :=
  tail = [] ∨ isAbsolute tail = true

theorem isAbsolute_iff {bs : Bytes} : isAbsolute bs = true ↔ ∃ tail, bs = slash :: tail := by
  cases bs with
  | nil => simp [isAbsolute]
  | cons b bs => simp [isAbsolute]

theorem isAbsolute_drop_slashRun (bs : Bytes) : isAbsolute (bs.drop (slashRun bs)) = false := by
  induction bs with
  | nil => rfl
  | cons b bs ih =>
    by_cases hb : b = slash
    · subst hb
      simpa [slashRun] using ih
    · simp [slashRun, isAbsolute, hb]

theorem breaks_dropWhile (bs : Bytes) : Breaks (bs.dropWhile (· != slash)) := by
  rcases hdrop : bs.dropWhile (· != slash) with _ | ⟨b, tail⟩
  · exact Or.inl rfl
  · have hb := List.head?_dropWhile_not (· != slash) bs
    rw [hdrop] at hb
    exact Or.inr (by simpa [isAbsolute] using hb)

theorem exists_segment_append {rest : Bytes} (hne : rest ≠ []) (hrest : isAbsolute rest = false) :
    ∃ segment tail, rest = segment ++ tail ∧ segment ≠ [] ∧ slash ∉ segment ∧ Breaks tail := by
  refine ⟨rest.takeWhile (· != slash), rest.dropWhile (· != slash),
    List.takeWhile_append_dropWhile.symm, ?_, ?_, ?_⟩
  · cases rest with
    | nil => exact absurd rfl hne
    | cons b bs =>
      have hb : b ≠ slash := by simpa [isAbsolute] using hrest
      simp [hb]
  · intro hmem
    have hall := List.all_eq_true.1 (List.all_takeWhile (p := (· != slash)) (l := rest)) slash hmem
    simp at hall
  · exact breaks_dropWhile rest

theorem names_append_of_breaks (segment : Bytes) {tail : Bytes} (h : Breaks tail) :
    names (segment ++ tail) = names segment ++ names tail := by
  rcases h with rfl | habs
  · simp
  · obtain ⟨rest, rfl⟩ := isAbsolute_iff.1 habs
    rw [names_append_slash, names_slash_cons]

namespace Scan

/-! ### One turn -/

theorem step_slash (absolute : Bool) {s : Scan} {tail : Bytes} (h : s.rest = slash :: tail) :
    step absolute s =
      { pos := s.pos + slashRun (slash :: tail)
        rest := (slash :: tail).drop (slashRun (slash :: tail))
        out := slash :: s.out
        depth := if s.pos = 0 then s.depth else s.depth + 1 } := by
  simp [step, h, write, advance]

theorem step_segment (absolute : Bool) {s : Scan} {segment tail : Bytes}
    (h : s.rest = segment ++ tail) (hne : segment ≠ []) (hfree : slash ∉ segment)
    (htail : Breaks tail) :
    step absolute s =
      if segment = [dot] then s.advance (segment.length + slashRun tail)
      else if segment = [dot, dot] then
        if 0 < s.depth then s.cutBack.advance (segment.length + slashRun tail)
        else if absolute then s.advance (segment.length + slashRun tail)
        else (s.write [dot, dot, slash]).advance (segment.length + slashRun tail)
      else (s.write segment).advance segment.length := by
  have htake : (segment ++ tail).takeWhile (· != slash) = segment := by
    rw [List.takeWhile_append_of_pos (forall_bne_of_notMem hfree)]
    rcases htail with rfl | habs
    · simp
    · obtain ⟨rest, rfl⟩ := isAbsolute_iff.1 habs
      simp
  obtain ⟨b, bs, rfl⟩ := List.exists_cons_of_ne_nil hne
  have hb : (b == slash) = false := by
    simpa using fun heq : b = slash => hfree (by simp [heq])
  have hrest : s.rest = b :: (bs ++ tail) := h
  have htake' : s.rest.takeWhile (· != slash) = b :: bs := by rw [h, htake]
  have hdrop : s.rest.drop (b :: bs).length = tail := by rw [h, List.drop_left]
  unfold step
  rw [hrest] at htake' hdrop ⊢
  simp only [hb, Bool.false_eq_true, if_false, htake', hdrop]

/-! ### The output of a stack -/

/-- The output that holds a stack, last octet first: the root's separator in an
    absolute path, then every segment with a separator after it. -/
def written (absolute : Bool) (stack : List Bytes) : Bytes :=
  (stack.flatMap fun segment => slash :: segment.reverse) ++ (if absolute then [slash] else [])

@[simp] theorem written_cons (absolute : Bool) (segment : Bytes) (stack : List Bytes) :
    written absolute (segment :: stack) =
      slash :: (segment.reverse ++ written absolute stack) := by
  simp [written]

theorem reverse_written (absolute : Bool) (stack : List Bytes) :
    (written absolute stack).reverse =
      (if absolute then [slash] else []) ++ stack.reverse.flatMap fun s => s ++ [slash] := by
  cases absolute <;> simp [written, List.reverse_flatMap, Function.comp_def]

theorem dropWhile_written (absolute : Bool) (stack : List Bytes) :
    (written absolute stack).dropWhile (· != slash) = written absolute stack := by
  cases stack with
  | nil => cases absolute <;> simp [written]
  | cons segment stack => simp

theorem cutBack_out {s : Scan} {segment : Bytes} {absolute : Bool} {stack : List Bytes}
    (h : s.out = written absolute (segment :: stack)) (hfree : slash ∉ segment) :
    s.cutBack.out = written absolute stack := by
  have hreverse : slash ∉ segment.reverse := fun hmem => hfree (List.mem_reverse.1 hmem)
  rw [cutBack, h, written_cons, List.tail_cons,
    List.dropWhile_append_of_pos (forall_bne_of_notMem hreverse), dropWhile_written]

/-- With a name to take back, cutting the output back does to it what `..` does to the
    stack. -/
theorem cutBack_out_of_layers {s : Scan} {absolute : Bool} {climbs : Nat} {name : Bytes}
    {above stack : List Bytes} (layers : Layers absolute climbs (name :: above) stack)
    (hout : s.out = written absolute stack) :
    s.cutBack.out = written absolute (keep absolute stack [dot, dot]) := by
  have hname : IsName name := layers.isName name (List.mem_cons_self ..)
  rw [layers.stack_eq_cons] at hout
  exact cutBack_out hout hname.slash_notMem

theorem render_reverse_cons (absolute : Bool) {segment : Bytes} (stack : List Bytes)
    (hne : segment ≠ []) :
    render absolute (segment :: stack).reverse = (written absolute stack).reverse ++ segment := by
  have hjoin : ∀ segments : List Bytes, [slash].intercalate (segments ++ [segment]) =
      (segments.flatMap fun s => s ++ [slash]) ++ segment := by
    intro segments
    induction segments with
    | nil => simp
    | cons first others ih =>
      rw [List.cons_append, List.intercalate_cons_of_ne_nil (by simp), ih]
      simp
  rw [render, List.reverse_cons, hjoin, reverse_written, if_neg (by simp [hne]), List.append_assoc]

/-! ### Where the scan stands -/

/-- The positions that the scan can have at the head of its loop, with the stack of
    the segments it has read: before the first separator of an absolute path; at the
    start of a segment; or after a name, whose separator is still to be read. -/
inductive Head (absolute : Bool) : List Bytes → Scan → Prop where
  | root {tail : Bytes} (habsolute : absolute = true) :
      Head absolute [] (start (slash :: tail))
  | between {s : Scan} {climbs : Nat} {above stack : List Bytes}
      (layers : Layers absolute climbs above stack)
      (out_eq : s.out = written absolute stack) (depth_eq : s.depth = above.length)
      (rest_start : isAbsolute s.rest = false) :
      Head absolute stack s
  | afterName {s : Scan} {climbs : Nat} {above stack : List Bytes} {name : Bytes}
      (layers : Layers absolute climbs above stack) (isName : IsName name)
      (out_eq : s.out = name.reverse ++ written absolute stack)
      (depth_eq : s.depth = above.length) (pos_pos : 0 < s.pos) (rest_start : Breaks s.rest) :
      Head absolute (name :: stack) s

theorem head_start (path : Bytes) : Head (isAbsolute path) [] (start path) := by
  by_cases habs : isAbsolute path = true
  · obtain ⟨tail, rfl⟩ := isAbsolute_iff.1 habs
    exact .root rfl
  · rw [Bool.not_eq_true] at habs
    rw [habs]
    exact .between (.nil false) rfl rfl habs

theorem head_advance {absolute : Bool} {s : Scan} {climbs : Nat} {above stack : List Bytes}
    {segment tail : Bytes} (layers : Layers absolute climbs above stack)
    (hout : s.out = written absolute stack) (hdepth : s.depth = above.length)
    (hrest : s.rest = segment ++ tail) :
    Head absolute stack (s.advance (segment.length + slashRun tail)) ∧
      names (s.advance (segment.length + slashRun tail)).rest = names tail := by
  have hskip : (s.advance (segment.length + slashRun tail)).rest = tail.drop (slashRun tail) := by
    rw [advance, hrest, ← List.drop_drop, List.drop_left]
  refine ⟨.between layers hout hdepth ?_, ?_⟩
  · rw [hskip]
    exact isAbsolute_drop_slashRun tail
  · rw [hskip]
    exact names_drop_slashRun tail

theorem head_step_dotDot {absolute : Bool} {s : Scan} {climbs : Nat} {above stack : List Bytes}
    {tail : Bytes} (layers : Layers absolute climbs above stack)
    (hout : s.out = written absolute stack) (hdepth : s.depth = above.length)
    (hrest : s.rest = [dot, dot] ++ tail) (htail : Breaks tail) :
    Head absolute (keep absolute stack [dot, dot]) (step absolute s) ∧
      names (step absolute s).rest = names tail := by
  rw [step_segment absolute hrest (by decide) (by decide) htail, if_neg (by decide), if_pos rfl]
  cases above with
  | cons name above =>
    -- the depth counts the name on top, and the output is cut back by just that name
    rw [if_pos (by simp [hdepth])]
    have hcut := cutBack_out_of_layers layers hout
    exact head_advance layers.keep_dotDot_cons hcut (by simp [cutBack, hdepth]) hrest
  | nil =>
    rw [if_neg (by simp [hdepth])]
    cases absolute with
    | true =>
      rw [if_pos rfl, layers.keep_dotDot_root]
      exact head_advance layers hout hdepth hrest
    | false =>
      obtain ⟨hkeep, hclimb⟩ := layers.keep_dotDot_climb
      have hwrite : (s.write [dot, dot, slash]).out = written false ([dot, dot] :: stack) := by
        simp [write, hout]
      rw [if_neg Bool.false_ne_true, hkeep]
      exact head_advance hclimb hwrite hdepth hrest

theorem head_step_name {absolute : Bool} {s : Scan} {climbs : Nat} {above stack : List Bytes}
    {name tail : Bytes} (layers : Layers absolute climbs above stack) (hname : IsName name)
    (hout : s.out = written absolute stack) (hdepth : s.depth = above.length)
    (hrest : s.rest = name ++ tail) (htail : Breaks tail) :
    Head absolute (name :: stack) (step absolute s) ∧
      names (step absolute s).rest = names tail := by
  rw [step_segment absolute hrest hname.ne_nil hname.slash_notMem htail, if_neg hname.ne_dot,
    if_neg hname.ne_dotDot]
  have hskip : ((s.write name).advance name.length).rest = tail := by
    simp [advance, write, hrest]
  refine ⟨.afterName layers hname ?_ hdepth ?_ ?_, by rw [hskip]⟩
  · simp [advance, write, hout]
  · have hlength : 0 < name.length := List.length_pos_iff.2 hname.ne_nil
    simp only [advance, write]
    omega
  · rw [hskip]
    exact htail

theorem head_step_segment {absolute : Bool} {s : Scan} {climbs : Nat} {above stack : List Bytes}
    {segment tail : Bytes} (layers : Layers absolute climbs above stack)
    (hout : s.out = written absolute stack) (hdepth : s.depth = above.length)
    (hrest : s.rest = segment ++ tail) (hne : segment ≠ []) (hfree : slash ∉ segment)
    (htail : Breaks tail) :
    Head absolute ((names segment).foldl (keep absolute) stack) (step absolute s) ∧
      names (step absolute s).rest = names tail := by
  rw [names_of_slash_notMem hfree]
  by_cases hdot : segment = [dot]
  · rw [step_segment absolute hrest hne hfree htail, if_pos hdot, if_pos (Or.inr hdot)]
    exact head_advance layers hout hdepth hrest
  · rw [if_neg (by simp [hne, hdot]), List.foldl_cons, List.foldl_nil]
    by_cases hup : segment = [dot, dot]
    · subst hup
      exact head_step_dotDot layers hout hdepth hrest htail
    · have hname : IsName segment := ⟨hne, hdot, hup, hfree⟩
      rw [hname.keep_eq]
      exact head_step_name layers hname hout hdepth hrest htail

theorem head_step_slash {absolute : Bool} {s : Scan} {stack : List Bytes} {tail : Bytes}
    (h : Head absolute stack s) (hrest : s.rest = slash :: tail) :
    Head absolute stack (step absolute s) ∧ names (step absolute s).rest = names s.rest := by
  have hstep := step_slash absolute hrest
  have hnames : names (step absolute s).rest = names s.rest := by
    rw [hstep, hrest]
    exact names_drop_slashRun (slash :: tail)
  have hbetween : isAbsolute (step absolute s).rest = false := by
    rw [hstep]
    exact isAbsolute_drop_slashRun (slash :: tail)
  refine ⟨?_, hnames⟩
  cases h with
  | root habsolute =>
    refine .between (.nil absolute) ?_ ?_ hbetween
    · rw [hstep]
      simp [start, written, habsolute]
    · rw [hstep]
      simp [start]
  | between layers hout hdepth hstart =>
    rw [hrest] at hstart
    simp [isAbsolute] at hstart
  | afterName layers hname hout hdepth hpos hstart =>
    have hlayers := layers.keep_name hname
    rw [hname.keep_eq] at hlayers
    refine .between hlayers ?_ ?_ hbetween
    · simp [hstep, hout]
    · simp [hstep, hdepth, Nat.ne_of_gt hpos]

/-- Where a segment is still to be read, the output is just what the stack is written as. -/
theorem Head.exists_layers {absolute : Bool} {stack : List Bytes} {s : Scan}
    (h : Head absolute stack s) (hs : s.rest ≠ []) (hsegment : isAbsolute s.rest = false) :
    ∃ climbs above, Layers absolute climbs above stack ∧ s.out = written absolute stack ∧
      s.depth = above.length := by
  cases h with
  | root habsolute => simp [start, isAbsolute] at hsegment
  | between layers hout hdepth _ => exact ⟨_, _, layers, hout, hdepth⟩
  | afterName layers hname hout hdepth hpos hstart =>
    exact absurd (hstart.resolve_left hs) (by simp [hsegment])

/-- **What one turn keeps.**  A turn leads from one position to another, and the
    segments still to read would leave the same stack as before. -/
theorem Head.step {absolute : Bool} {stack : List Bytes} {s : Scan} (h : Head absolute stack s)
    (hs : s.rest ≠ []) :
    ∃ stack', Head absolute stack' (step absolute s) ∧
      (names (Scan.step absolute s).rest).foldl (keep absolute) stack' =
        (names s.rest).foldl (keep absolute) stack := by
  by_cases habs : isAbsolute s.rest = true
  · obtain ⟨tail, hrest⟩ := isAbsolute_iff.1 habs
    obtain ⟨hhead, hnames⟩ := head_step_slash h hrest
    exact ⟨stack, hhead, by rw [hnames]⟩
  · rw [Bool.not_eq_true] at habs
    obtain ⟨segment, tail, hrest, hne, hfree, htail⟩ := exists_segment_append hs habs
    obtain ⟨climbs, above, layers, hout, hdepth⟩ := h.exists_layers hs habs
    obtain ⟨hhead, hnames⟩ := head_step_segment layers hout hdepth hrest hne hfree htail
    refine ⟨_, hhead, ?_⟩
    rw [hnames, hrest, names_append_of_breaks segment htail, List.foldl_append]

/-! ### The run -/

theorem run_induct (absolute : Bool) {P : Scan → Prop}
    (hstep : ∀ s, s.rest ≠ [] → P s → P (step absolute s)) {s : Scan} (hs : P s) :
    P (run absolute s) ∧ (run absolute s).rest = [] := by
  induction s using run.induct absolute with
  | case1 s hrest =>
    rw [run, dif_pos hrest]
    exact ⟨hs, hrest⟩
  | case2 s hrest _ ih =>
    rw [run, dif_neg hrest]
    exact ih (hstep s hrest hs)

/-- **What a run keeps.**  A run ends with everything read, and the stack it has then
    is the one that the segments it read made. -/
theorem Head.run {absolute : Bool} {stack : List Bytes} {s : Scan} (h : Head absolute stack s) :
    Head absolute ((names s.rest).foldl (keep absolute) stack) (run absolute s) ∧
      (Scan.run absolute s).rest = [] := by
  have hinvariant := run_induct absolute
    (P := fun t => ∃ stack', Head absolute stack' t ∧
      (names t.rest).foldl (keep absolute) stack' = (names s.rest).foldl (keep absolute) stack)
    (fun t ht ⟨stack', hhead, hsame⟩ => by
      obtain ⟨stack'', hhead', hsame'⟩ := hhead.step ht
      exact ⟨stack'', hhead', hsame'.trans hsame⟩)
    ⟨stack, h, rfl⟩
  obtain ⟨⟨stack', hhead, hsame⟩, hrest⟩ := hinvariant
  rw [hrest, names_nil, List.foldl_nil] at hsame
  rw [← hsame]
  exact ⟨hhead, hrest⟩

theorem finish_of_slash {s : Scan} {out : Bytes} (h : s.out = slash :: out) (hne : out ≠ []) :
    s.finish = out.reverse := by
  obtain ⟨b, bs, rfl⟩ := List.exists_cons_of_ne_nil hne
  simp [finish, h]

theorem finish_of_ne_slash {s : Scan} {b : UInt8} {out : Bytes} (h : s.out = b :: out)
    (hb : b ≠ slash) : s.finish = s.out.reverse := by
  cases out with
  | nil => simp [finish, h]
  | cons b' out => simp [finish, h, hb]

theorem Head.finish_eq {absolute : Bool} {stack : List Bytes} {s : Scan}
    (h : Head absolute stack s) (hrest : s.rest = []) :
    s.finish = render absolute stack.reverse := by
  cases h with
  | root habsolute => simp [start] at hrest
  | between layers hout hdepth hstart =>
    cases stack with
    | nil => cases absolute <;> simp [finish, hout, written, render]
    | cons segment stack =>
      have hne : segment ≠ [] := layers.ne_nil_of_mem (by simp)
      rw [written_cons] at hout
      rw [finish_of_slash hout (by simp [hne]), render_reverse_cons absolute stack hne]
      simp
  | @afterName _ climbs above below name layers hname hout hdepth hpos hstart =>
    rw [render_reverse_cons absolute below hname.ne_nil]
    obtain ⟨b, bs, hlast, hb⟩ := hname.exists_reverse_eq_cons
    have hcons : s.out = b :: (bs ++ written absolute below) := by
      rw [hout, hlast, List.cons_append]
    rw [finish_of_ne_slash hcons hb, hout]
    simp

end Scan

/-! ### The normal form -/

theorem normalize_eq_render (path : Bytes) :
    normalize path = render (isAbsolute path) (kept path) := by
  obtain ⟨hhead, hrest⟩ := (Scan.head_start path).run
  exact hhead.finish_eq hrest

theorem names_normalize (path : Bytes) : names (normalize path) = kept path := by
  rw [normalize_eq_render]
  exact names_render (fun _ => isName_or_dotDot_of_mem_kept) (isAbsolute path)

theorem isAbsolute_normalize (path : Bytes) : isAbsolute (normalize path) = isAbsolute path := by
  rw [normalize_eq_render]
  exact isAbsolute_render (fun _ => isName_or_dotDot_of_mem_kept) (isAbsolute path)

theorem normalize_eq_normalize_iff {p q : Bytes} :
    normalize p = normalize q ↔ isAbsolute p = isAbsolute q ∧ kept p = kept q := by
  constructor
  · intro h
    rw [← isAbsolute_normalize p, ← isAbsolute_normalize q, ← names_normalize p,
      ← names_normalize q, h]
    exact ⟨rfl, rfl⟩
  · rintro ⟨habsolute, hkept⟩
    rw [normalize_eq_render, normalize_eq_render, habsolute, hkept]

/-- **The normal form is what the stack keeps.**  Its segments are segments of the path,
    unchanged and in the order they have there. -/
theorem normalize_eq_render_and_sublist (path : Bytes) :
    normalize path = render (isAbsolute path) (kept path) ∧
      (kept path).Sublist (segments path) ∧ normalize [] = [dot] := by
  refine ⟨normalize_eq_render path, ?_, ?_⟩
  · exact (kept_sublist_names path).trans List.filter_sublist
  · rw [normalize_eq_render]
    rfl

end Path

end FileAccess
