/-
  FileAccess/Proofs/Path/Meaning.lean
  ===================================
  **The normal form decides what a path means.**

  Without looking at any file system, a path still says how to go from one directory
  to another: a directory is the list of names that leads to it from the root, and
  every segment changes that list.  Two paths have the same normal form exactly when
  they go the same way from every directory.

  Both directions go through the stack of a path (`meaning_eq_landing`): a path with
  `n` kept `..` goes up `n` times and then down the names above them.  Going up more
  often than the base is deep stays at the root, so different paths can agree on
  shallow bases; two bases as deep as the path climbs tell them apart.
-/
import FileAccess.Proofs.Path.Scan

namespace FileAccess

namespace Path

open Bytes
open FileAccess.Tree (names startOf)

/-! ### Following a path -/

/-- Where a segment leads from a directory: `..` goes up, and stays at the root. -/
def follow (place : Location) (segment : Bytes) : Location :=
  if segment = [] ∨ segment = [dot] then place
  else if segment = [dot, dot] then place.dropLast
  else place ++ [segment]

def meaning (path : Bytes) (base : Location) : Location :=
  (segments path).foldl follow (startOf base path)

theorem meaning_eq_foldl_names (path : Bytes) (base : Location) :
    meaning path base = (names path).foldl follow (startOf base path) := by
  rw [meaning, names, List.foldl_filter]
  congr 1
  funext place segment
  by_cases hskip : segment = [] ∨ segment = [dot]
  · rcases hskip with rfl | rfl <;> simp [follow]
  · rw [not_or] at hskip
    simp [hskip]

/-- Go up, then down the names, the last of which comes first. -/
def landing (climbs : Nat) (above : List Bytes) (base : Location) : Location :=
  base.take (base.length - climbs) ++ above.reverse

theorem IsName.follow_eq {name : Bytes} (h : IsName name) (place : Location) :
    follow place name = place ++ [name] := by
  rw [follow, if_neg, if_neg h.ne_dotDot]
  rintro (hnil | hdot)
  · exact h.ne_nil hnil
  · exact h.ne_dot hdot

theorem follow_dotDot (place : Location) : follow place [dot, dot] = place.dropLast := rfl

theorem dropLast_landing_nil (climbs : Nat) (base : Location) :
    (landing climbs [] base).dropLast = landing (climbs + 1) [] base := by
  have hlength : (base.take (base.length - climbs)).length - 1 = base.length - (climbs + 1) := by
    rw [List.length_take]
    omega
  have hmin : min (base.length - (climbs + 1)) (base.length - climbs) =
      base.length - (climbs + 1) := by omega
  simp only [landing, List.reverse_nil, List.append_nil]
  rw [List.dropLast_eq_take, hlength, List.take_take, hmin]

section Layers

variable {absolute : Bool} {climbs : Nat} {above stack : List Bytes}

/-- What a segment does to the stack it does to the place, at the root included. -/
theorem Layers.follow_landing (h : Layers absolute climbs above stack) {segment : Bytes}
    (hsegment : IsName segment ∨ segment = [dot, dot]) :
    ∃ climbs' above', Layers absolute climbs' above' (keep absolute stack segment) ∧
      ∀ base : Location, (absolute = true → base = []) →
        follow (landing climbs above base) segment = landing climbs' above' base := by
  rcases hsegment with hname | rfl
  · refine ⟨climbs, segment :: above, h.keep_name hname, ?_⟩
    intro base _
    rw [hname.follow_eq, landing, landing, List.reverse_cons, List.append_assoc]
  · cases above with
    | cons name above =>
      refine ⟨climbs, above, h.keep_dotDot_cons, ?_⟩
      intro base _
      rw [follow_dotDot, landing, landing, List.reverse_cons, ← List.append_assoc,
        List.dropLast_concat]
    | nil =>
      cases absolute with
      | true =>
        refine ⟨climbs, [], ?_, ?_⟩
        · rw [h.keep_dotDot_root]
          exact h
        · intro base hbase
          rw [follow_dotDot, hbase rfl]
          simp [landing]
      | false =>
        obtain ⟨hkeep, hclimb⟩ := h.keep_dotDot_climb
        refine ⟨climbs + 1, [], hkeep ▸ hclimb, ?_⟩
        intro base _
        rw [follow_dotDot, dropLast_landing_nil]

theorem Layers.foldl_follow_landing {segments : List Bytes}
    (hsegments : ∀ segment ∈ segments, IsName segment ∨ segment = [dot, dot])
    (h : Layers absolute climbs above stack) :
    ∃ climbs' above', Layers absolute climbs' above' (segments.foldl (keep absolute) stack) ∧
      ∀ base : Location, (absolute = true → base = []) →
        segments.foldl follow (landing climbs above base) = landing climbs' above' base := by
  induction segments generalizing climbs above stack with
  | nil => exact ⟨climbs, above, h, fun _ _ => rfl⟩
  | cons segment segments ih =>
    obtain ⟨climbs', above', hlayers, hfollow⟩ := h.follow_landing (hsegments segment (by simp))
    obtain ⟨climbs'', above'', hlayers', hfollow'⟩ :=
      ih (fun other hother => hsegments other (by simp [hother])) hlayers
    refine ⟨climbs'', above'', hlayers', ?_⟩
    intro base hbase
    rw [List.foldl_cons, hfollow base hbase, hfollow' base hbase]

end Layers

theorem meaning_eq_landing (path : Bytes) :
    ∃ climbs above, Layers (isAbsolute path) climbs above (kept path).reverse ∧
      ∀ base, meaning path base = landing climbs above (startOf base path) := by
  have hnames : ∀ segment ∈ names path, IsName segment ∨ segment = [dot, dot] := by
    intro segment hsegment
    exact isName_or_dotDot_of_mem_names hsegment
  obtain ⟨climbs, above, hlayers, hlanding⟩ :=
    (Layers.nil (isAbsolute path)).foldl_follow_landing hnames
  refine ⟨climbs, above, by rwa [kept, List.reverse_reverse], ?_⟩
  intro base
  have hstart : landing 0 [] (startOf base path) = startOf base path := by simp [landing]
  have hroot : isAbsolute path = true → startOf base path = [] := fun habs => by
    simp [startOf, habs]
  rw [meaning_eq_foldl_names, ← hlanding _ hroot, hstart]

theorem foldl_follow_names {above : List Bytes} (h : ∀ name ∈ above, IsName name)
    (place : Location) : above.foldl follow place = place ++ above := by
  induction above generalizing place with
  | nil => simp
  | cons name above ih =>
    have habove : ∀ other ∈ above, IsName other := by
      intro other hother
      exact h other (List.mem_cons_of_mem name hother)
    rw [List.foldl_cons, (h name (List.mem_cons_self ..)).follow_eq, ih habove]
    simp

theorem foldl_follow_climbs (climbs : Nat) (base : Location) :
    (List.replicate climbs [dot, dot]).foldl follow base = landing climbs [] base := by
  induction climbs with
  | zero => simp [landing]
  | succ climbs ih =>
    rw [List.replicate_succ', List.foldl_append, ih, List.foldl_cons, List.foldl_nil,
      follow_dotDot, dropLast_landing_nil]

theorem meaning_eq_foldl_kept (path : Bytes) (base : Location) :
    meaning path base = (kept path).foldl follow (startOf base path) := by
  obtain ⟨climbs, above, hlayers, hmeaning⟩ := meaning_eq_landing path
  have hkept : kept path = List.replicate climbs [dot, dot] ++ above.reverse := by
    rw [← List.reverse_reverse (kept path), hlayers.stack_eq, List.reverse_append,
      List.reverse_replicate]
  have hnames : ∀ name ∈ above.reverse, IsName name :=
    fun name hmem => hlayers.isName name (List.mem_reverse.1 hmem)
  rw [hmeaning, hkept, List.foldl_append, foldl_follow_climbs, foldl_follow_names hnames]
  simp [landing]

/-! ### Bases that tell paths apart -/

theorem landing_injective {climbs climbs' : Nat} {above above' : List Bytes} {x y : Bytes}
    (hxy : x ≠ y) (hle : climbs ≤ climbs')
    (hx : landing climbs above (List.replicate climbs' x) =
      landing climbs' above' (List.replicate climbs' x))
    (hy : landing climbs above (List.replicate climbs' y) =
      landing climbs' above' (List.replicate climbs' y)) :
    climbs = climbs' ∧ above = above' := by
  simp only [landing, List.length_replicate, List.take_replicate, Nat.sub_self, Nat.zero_min,
    List.replicate_zero, List.nil_append] at hx hy
  have hmin : min (climbs' - climbs) climbs' = climbs' - climbs := by omega
  rw [hmin] at hx hy
  have hsame : List.replicate (climbs' - climbs) x = List.replicate (climbs' - climbs) y :=
    List.append_cancel_right (hx.trans hy.symm)
  have hclimbs : climbs = climbs' := by
    rcases (List.replicate_inj.1 hsame).2 with hzero | heq
    · omega
    · exact absurd heq hxy
  subst hclimbs
  simpa using hx

/-- Bases with names only tell two ways apart. -/
theorem landing_eq_imp {climbs climbs' : Nat} {above above' : List Bytes}
    (h : ∀ base : Location, (∀ name ∈ base, IsName name) →
      landing climbs above base = landing climbs' above' base) :
    climbs = climbs' ∧ above = above' := by
  have hname : ∀ b : UInt8, IsName [b] → ∀ depth, landing climbs above (List.replicate depth [b]) =
      landing climbs' above' (List.replicate depth [b]) := by
    intro b hb depth
    apply h
    intro name hmem
    rw [List.eq_of_mem_replicate hmem]
    exact hb
  have ha := hname 0x61 (by decide)
  have hb := hname 0x62 (by decide)
  rcases Nat.le_total climbs climbs' with hle | hle
  · exact landing_injective (by decide) hle (ha climbs') (hb climbs')
  · obtain ⟨hclimbs, habove⟩ :=
      landing_injective (by decide) hle (ha climbs).symm (hb climbs).symm
    exact ⟨hclimbs.symm, habove.symm⟩

theorem landing_nil_ne (climbs climbs' : Nat) (above above' : List Bytes) :
    ∃ base : Location, (∀ name ∈ base, IsName name) ∧
      landing climbs above [] ≠ landing climbs' above' base := by
  refine ⟨List.replicate (climbs' + above.length + 1) [0x61], ?_, ?_⟩
  · intro name hmem
    rw [List.eq_of_mem_replicate hmem]
    decide
  · intro heq
    have hlength := congrArg List.length heq
    simp only [landing, List.length_append, List.length_take, List.length_reverse,
      List.length_replicate, List.length_nil] at hlength
    omega

theorem kept_eq_of_meaning_eq {p q : Bytes}
    (h : ∀ base : Location, (∀ name ∈ base, IsName name) → meaning p base = meaning q base) :
    isAbsolute p = isAbsolute q ∧ kept p = kept q := by
  obtain ⟨climbs, above, hp, hpmeaning⟩ := meaning_eq_landing p
  obtain ⟨climbs', above', hq, hqmeaning⟩ := meaning_eq_landing q
  simp only [hpmeaning, hqmeaning, startOf] at h
  have hclimbs := hp.climbs_eq
  have hclimbs' := hq.climbs_eq
  cases hap : isAbsolute p <;> cases haq : isAbsolute q <;>
    simp only [hap, haq, if_true, Bool.false_eq_true, if_false] at h hclimbs hclimbs'
  · obtain ⟨rfl, rfl⟩ := landing_eq_imp h
    exact ⟨rfl, List.reverse_inj.1 (hp.stack_eq.trans hq.stack_eq.symm)⟩
  · obtain ⟨base, hbase, hne⟩ := landing_nil_ne climbs' climbs above' above
    exact absurd (h base hbase).symm hne
  · obtain ⟨base, hbase, hne⟩ := landing_nil_ne climbs climbs' above above'
    exact absurd (h base hbase) hne
  · have habove : above = above' := by
      have hroot := h [] (by simp)
      simpa [landing] using hroot
    have hstack : (kept p).reverse = (kept q).reverse := by
      rw [hp.stack_eq, hq.stack_eq, hclimbs trivial, hclimbs' trivial, habove]
    exact ⟨rfl, List.reverse_inj.1 hstack⟩

/-- **The normal form is sound and complete for what a path means.**  Paths with one
    normal form lead to the same directory from every base, however deep; and paths
    that do so from every base of ordinary names have one normal form. -/
theorem normalize_eq_iff_meaning_eq (p q : Bytes) :
    (normalize p = normalize q ↔ ∀ base : Location, meaning p base = meaning q base) ∧
      ((∀ base : Location, (∀ name ∈ base, IsName name) → meaning p base = meaning q base) →
        normalize p = normalize q) := by
  have hcomplete : (∀ base : Location, (∀ name ∈ base, IsName name) →
      meaning p base = meaning q base) → normalize p = normalize q :=
    fun h => normalize_eq_normalize_iff.2 (kept_eq_of_meaning_eq h)
  refine ⟨⟨?_, fun h => hcomplete fun base _ => h base⟩, hcomplete⟩
  intro h base
  obtain ⟨habsolute, hkept⟩ := normalize_eq_normalize_iff.1 h
  rw [meaning_eq_foldl_kept, meaning_eq_foldl_kept, hkept, startOf, startOf, habsolute]

end Path

end FileAccess
