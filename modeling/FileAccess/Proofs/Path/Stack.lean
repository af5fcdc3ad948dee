/-
  FileAccess/Proofs/Path/Stack.lean
  =================================
  **The normal form of a path, by its segments.**

  This file says what the normal form of a path is without a scan: the path is cut
  into segments, the empty ones and `.` are left out, and the others go onto a stack
  in order, from which `..` takes a name back where there is one.  What is left on
  the stack, written with `/` between two segments, is the normal form.

  The stack always has the same shape (`Layers`): names on top of `..`s that were
  kept, and no such `..` in an absolute path.  So how many names `..` can take back
  is the number of names above the `..`s.
-/
import FileAccess.Path.Normalize
import FileAccess.Path.Segments
import FileAccess.Tree.Edit

namespace FileAccess

namespace Path

open Bytes
open FileAccess.Tree (names)

/-! ### The stack of segments -/

/-- Take a segment onto a stack whose top comes first: `..` takes off a name from the
    top; with no name there it is dropped in an absolute path and kept in a relative
    one.  Any other segment is kept. -/
def keep (absolute : Bool) (stack : List Bytes) (segment : Bytes) : List Bytes :=
  if segment ≠ [dot, dot] then segment :: stack
  else if stack.head?.any (· != [dot, dot]) then stack.tail
  else if absolute then stack
  else segment :: stack

def kept (path : Bytes) : List Bytes :=
  ((names path).foldl (keep (isAbsolute path)) []).reverse

/-- Write segments as a path: with a separator between two of them and one in front
    when the path is absolute, and as `.` where that writes nothing. -/
def render (absolute : Bool) (kept : List Bytes) : Bytes :=
  let text := (if absolute then [slash] else []) ++ [slash].intercalate kept
  if text = [] then [dot] else text

/-! ### Names and the other segments -/

structure IsName (segment : Bytes) : Prop where
  ne_nil : segment ≠ []
  ne_dot : segment ≠ [dot]
  ne_dotDot : segment ≠ [dot, dot]
  slash_notMem : slash ∉ segment

theorem isName_iff (segment : Bytes) :
    IsName segment ↔
      segment ≠ [] ∧ segment ≠ [dot] ∧ segment ≠ [dot, dot] ∧ slash ∉ segment :=
  ⟨fun h => ⟨h.ne_nil, h.ne_dot, h.ne_dotDot, h.slash_notMem⟩,
    fun ⟨h₁, h₂, h₃, h₄⟩ => ⟨h₁, h₂, h₃, h₄⟩⟩

instance (segment : Bytes) : Decidable (IsName segment) :=
  decidable_of_iff' _ (isName_iff segment)

/-- The last octet of a name is no separator. -/
theorem IsName.exists_reverse_eq_cons {name : Bytes} (h : IsName name) :
    ∃ b bs, name.reverse = b :: bs ∧ b ≠ slash := by
  obtain ⟨b, bs, hlast⟩ := List.exists_cons_of_ne_nil (List.reverse_ne_nil_iff.2 h.ne_nil)
  refine ⟨b, bs, hlast, ?_⟩
  rintro rfl
  exact h.slash_notMem (List.mem_reverse.1 (by simp [hlast]))

theorem slash_notMem_of_mem_segments {path segment : Bytes} (h : segment ∈ segments path) :
    slash ∉ segment := by
  induction path generalizing segment with
  | nil =>
    rw [show segments [] = [[]] from rfl, List.mem_singleton] at h
    simp [h]
  | cons b bs ih =>
    simp only [segments] at h
    split at h
    · rcases List.mem_cons.1 h with rfl | h
      · simp
      · exact ih h
    · rename_i hb
      have hb : slash ≠ b := fun heq => hb (by simp [← heq])
      split at h
      · rw [List.mem_singleton] at h
        simp [h, hb]
      · rename_i first others heq
        rcases List.mem_cons.1 h with rfl | h
        · have hfirst : slash ∉ first := ih (by simp [heq])
          simp [hb, hfirst]
        · exact ih (by simp [heq, h])

theorem isName_or_dotDot_of_mem_names {path segment : Bytes} (h : segment ∈ names path) :
    IsName segment ∨ segment = [dot, dot] := by
  rw [names, List.mem_filter] at h
  obtain ⟨hmem, hne⟩ := h
  simp only [Bool.and_eq_true, bne_iff_ne, ne_eq] at hne
  by_cases hup : segment = [dot, dot]
  · exact Or.inr hup
  · exact Or.inl ⟨hne.1, hne.2, hup, slash_notMem_of_mem_segments hmem⟩

/-! ### The segments of a path written in parts -/

@[simp] theorem names_nil : names [] = [] := rfl

theorem names_append_slash (bs rest : Bytes) :
    names (bs ++ slash :: rest) = names bs ++ names rest := by
  simp only [names, segments_eq_splitOn, List.splitOn_append_cons_self, List.filter_append]

@[simp] theorem names_slash_cons (bs : Bytes) : names (slash :: bs) = names bs := by
  simpa using names_append_slash [] bs

theorem names_drop_slashRun (bs : Bytes) : names (bs.drop (slashRun bs)) = names bs := by
  induction bs with
  | nil => rfl
  | cons b bs ih =>
    by_cases hb : b = slash
    · subst hb
      have hrun : slashRun (slash :: bs) = slashRun bs + 1 := by simp [slashRun]
      rw [hrun, List.drop_succ_cons, ih, names_slash_cons]
    · have hrun : slashRun (b :: bs) = 0 := by simp [slashRun, hb]
      rw [hrun, List.drop_zero]

theorem names_of_slash_notMem {segment : Bytes} (h : slash ∉ segment) :
    names segment = if segment = [] ∨ segment = [dot] then [] else [segment] := by
  rw [names, segments_eq_splitOn, List.splitOn_eq_singleton h]
  by_cases h₁ : segment = [] <;> by_cases h₂ : segment = [dot] <;> simp [h₁, h₂]

theorem IsName.names_eq {segment : Bytes} (h : IsName segment) : names segment = [segment] := by
  rw [names_of_slash_notMem h.slash_notMem, if_neg]
  rintro (hnil | hdot)
  · exact h.ne_nil hnil
  · exact h.ne_dot hdot

/-! ### The shape of the stack -/

/-- A stack is `climbs` times `..` with names above them; an absolute path keeps no
    `..`. -/
structure Layers (absolute : Bool) (climbs : Nat) (above stack : List Bytes) : Prop where
  stack_eq : stack = above ++ List.replicate climbs [dot, dot]
  isName : ∀ name ∈ above, IsName name
  climbs_eq : absolute = true → climbs = 0

theorem Layers.nil (absolute : Bool) : Layers absolute 0 [] [] :=
  ⟨rfl, by simp, fun _ => rfl⟩

variable {absolute : Bool} {climbs : Nat} {above stack : List Bytes} {name : Bytes}

theorem Layers.isName_or_dotDot (h : Layers absolute climbs above stack) {segment : Bytes}
    (hmem : segment ∈ stack) : IsName segment ∨ segment = [dot, dot] := by
  rw [h.stack_eq, List.mem_append] at hmem
  rcases hmem with hmem | hmem
  · exact Or.inl (h.isName segment hmem)
  · exact Or.inr (List.eq_of_mem_replicate hmem)

theorem Layers.ne_nil_of_mem (h : Layers absolute climbs above stack) {segment : Bytes}
    (hmem : segment ∈ stack) : segment ≠ [] := by
  rcases h.isName_or_dotDot hmem with hname | rfl
  · exact hname.ne_nil
  · simp

theorem IsName.keep_eq (h : IsName name) (absolute : Bool) (stack : List Bytes) :
    keep absolute stack name = name :: stack := by
  rw [keep, if_pos h.ne_dotDot]

theorem Layers.keep_name (h : Layers absolute climbs above stack) (hname : IsName name) :
    Layers absolute climbs (name :: above) (keep absolute stack name) := by
  refine ⟨?_, ?_, h.climbs_eq⟩
  · rw [hname.keep_eq, h.stack_eq, List.cons_append]
  · intro other hother
    rcases List.mem_cons.1 hother with rfl | hother
    · exact hname
    · exact h.isName other hother

theorem Layers.keep_dotDot_cons (h : Layers absolute climbs (name :: above) stack) :
    Layers absolute climbs above (keep absolute stack [dot, dot]) := by
  have hname : IsName name := h.isName name (by simp)
  refine ⟨?_, fun other hother => h.isName other (by simp [hother]), h.climbs_eq⟩
  rw [h.stack_eq]
  simp [keep, hname.ne_dotDot]

/-- With a name above the climbs, the stack is that name on what `..` leaves of it. -/
theorem Layers.stack_eq_cons (h : Layers absolute climbs (name :: above) stack) :
    stack = name :: keep absolute stack [dot, dot] := by
  rw [h.keep_dotDot_cons.stack_eq, ← List.cons_append]
  exact h.stack_eq

theorem Layers.keep_dotDot_root (h : Layers true climbs [] stack) :
    keep true stack [dot, dot] = stack := by
  have hstack : stack = [] := by simp [h.stack_eq, h.climbs_eq rfl]
  rw [hstack]
  rfl

theorem Layers.keep_dotDot_climb (h : Layers false climbs [] stack) :
    keep false stack [dot, dot] = [dot, dot] :: stack ∧
      Layers false (climbs + 1) [] ([dot, dot] :: stack) := by
  have hstack : stack = List.replicate climbs [dot, dot] := by simpa using h.stack_eq
  constructor
  · cases climbs <;> simp [keep, hstack, List.replicate_succ]
  · exact ⟨by simp [hstack, List.replicate_succ], by simp, by simp⟩

/-! ### What is kept -/

/-- The stack holds segments that were read, in the order in which they were. -/
theorem reverse_foldl_keep_sublist (absolute : Bool) {stack read : List Bytes}
    (segments : List Bytes) (h : stack.reverse.Sublist read) :
    (segments.foldl (keep absolute) stack).reverse.Sublist (read ++ segments) := by
  induction segments generalizing stack read with
  | nil => simpa using h
  | cons segment segments ih =>
    have hpush : (segment :: stack).reverse.Sublist (read ++ [segment]) := by
      rw [List.reverse_cons]
      exact h.append (List.Sublist.refl _)
    have hstack : stack.reverse.Sublist (read ++ [segment]) :=
      h.trans (List.sublist_append_left _ _)
    have htail : stack.tail.reverse.Sublist (read ++ [segment]) :=
      (List.tail_sublist stack).reverse.trans hstack
    have hkeep : (keep absolute stack segment).reverse.Sublist (read ++ [segment]) := by
      unfold keep
      repeat' split
      · exact hpush
      · exact htail
      · exact hstack
      · exact hpush
    rw [List.foldl_cons, ← List.singleton_append, ← List.append_assoc]
    exact ih hkeep

theorem kept_sublist_names (path : Bytes) : (kept path).Sublist (names path) := by
  have hempty : ([] : List Bytes).reverse.Sublist [] := List.Sublist.refl _
  simpa [kept] using reverse_foldl_keep_sublist (isAbsolute path) (names path) hempty

theorem isName_or_dotDot_of_mem_kept {path segment : Bytes} (h : segment ∈ kept path) :
    IsName segment ∨ segment = [dot, dot] :=
  isName_or_dotDot_of_mem_names ((kept_sublist_names path).subset h)

theorem ne_nil_and_slash_notMem {segment : Bytes} (h : IsName segment ∨ segment = [dot, dot]) :
    segment ≠ [] ∧ slash ∉ segment := by
  rcases h with hname | rfl
  · exact ⟨hname.ne_nil, hname.slash_notMem⟩
  · decide

theorem names_eq_singleton {segment : Bytes} (h : IsName segment ∨ segment = [dot, dot]) :
    names segment = [segment] := by
  rcases h with hname | rfl
  · exact hname.names_eq
  · rfl

/-! ### Reading a written path -/

section Render

variable {segments : List Bytes}
  (hsegments : ∀ segment ∈ segments, IsName segment ∨ segment = [dot, dot])
include hsegments

theorem names_intercalate : names ([slash].intercalate segments) = segments := by
  induction segments with
  | nil => rfl
  | cons first others ih =>
    have hfirst := names_eq_singleton (hsegments first (by simp))
    cases others with
    | nil => simpa using hfirst
    | cons second others =>
      rw [List.intercalate_cons_of_ne_nil (by simp), List.append_assoc, List.singleton_append,
        names_append_slash, hfirst, ih fun segment hmem => hsegments segment (by simp [hmem])]
      rfl

theorem names_render (absolute : Bool) : names (render absolute segments) = segments := by
  have hnames := names_intercalate hsegments
  unfold render
  cases absolute with
  | true => simpa using hnames
  | false =>
    by_cases hempty : [slash].intercalate segments = []
    · have hsegments' : segments = [] := by simpa [hempty] using hnames.symm
      subst hsegments'
      rfl
    · simpa [hempty] using hnames

theorem isAbsolute_render (absolute : Bool) :
    isAbsolute (render absolute segments) = absolute := by
  unfold render
  cases absolute with
  | true => simp [isAbsolute]
  | false =>
    cases segments with
    | nil => rfl
    | cons first others =>
      obtain ⟨hne, hfree⟩ := ne_nil_and_slash_notMem (hsegments first (by simp))
      obtain ⟨b, bs, rfl⟩ := List.exists_cons_of_ne_nil hne
      have hb : b ≠ slash := fun heq => hfree (by simp [heq])
      cases others with
      | nil => simp [isAbsolute, hb]
      | cons second others => simp [List.intercalate_cons_cons, isAbsolute, hb]

end Render

end Path

end FileAccess
