/-
  FileAccess/Proofs/Lines/Records.lean
  ====================================
  **The records of a content.**

  `recordsOf` lists the records of a content, and `IsCut` says what it is to cut a
  content into records without speaking of how they are found: nothing is lost or
  added, no record is empty, each record but the last ends in its only newline, and
  the last one does too or has none.  There is exactly one such list for each content
  (`isCut_iff`), and it has a record for each newline and one for what follows the
  last newline.

  A content is empty, or one unfinished line, or a line and another content: the
  proofs follow these three cases (`lines_induction`).
-/
import FileAccess.Lines.Window

namespace FileAccess

open Bytes

/-! ### The first line -/

section First

variable {body bs : Bytes} (rest : Bytes)

theorem dropWhile_eq_nil_of_newline_notMem (h : newline ∉ bs) :
    bs.dropWhile (· != newline) = [] := by
  induction bs with
  | nil => rfl
  | cons b bs ih =>
    rw [List.mem_cons, not_or] at h
    rw [List.dropWhile_cons_of_pos (by simpa using Ne.symm h.1)]
    exact ih h.2

theorem firstBody_of_newline_notMem (h : newline ∉ bs) : firstBody bs = bs := by
  have hsplit := List.takeWhile_append_dropWhile (p := (· != newline)) (l := bs)
  rwa [dropWhile_eq_nil_of_newline_notMem h, List.append_nil] at hsplit

theorem firstBody_append_newline (h : newline ∉ body) :
    firstBody (body ++ newline :: rest) = body := by
  have hbody : (body.takeWhile (· != newline)).length = body.length := by
    exact congrArg List.length (firstBody_of_newline_notMem h)
  rw [firstBody, List.takeWhile_append, if_pos hbody]
  simp

theorem firstIsEnded_of_newline_notMem (h : newline ∉ bs) : firstIsEnded bs = false := by
  rw [firstIsEnded, dropWhile_eq_nil_of_newline_notMem h]
  rfl

theorem firstIsEnded_append_newline (h : newline ∉ body) :
    firstIsEnded (body ++ newline :: rest) = true := by
  rw [firstIsEnded, List.dropWhile_append, dropWhile_eq_nil_of_newline_notMem h]
  simp

theorem firstLength_of_newline_notMem (h : newline ∉ bs) : firstLength bs = bs.length := by
  rw [firstLength, firstBody_of_newline_notMem h, firstIsEnded_of_newline_notMem h]
  rfl

theorem firstLength_append_newline (h : newline ∉ body) :
    firstLength (body ++ newline :: rest) = body.length + 1 := by
  rw [firstLength, firstBody_append_newline rest h, firstIsEnded_append_newline rest h]
  rfl

theorem firstRecord_of_newline_notMem (strip : Bool) (h : newline ∉ bs) :
    firstRecord strip bs = bs := by
  rw [firstRecord, firstIsEnded_of_newline_notMem h, firstBody_of_newline_notMem h]
  rfl

theorem firstRecord_append_newline (strip : Bool) (h : newline ∉ body) :
    firstRecord strip (body ++ newline :: rest) = if strip then body else body ++ [newline] := by
  rw [firstRecord, firstIsEnded_append_newline rest h, firstBody_append_newline rest h]
  cases strip <;> rfl

end First

/-- What holds of the empty content and of an unfinished line, and of a line followed by
    a content when it holds of that content, holds of every content. -/
theorem lines_induction {P : Bytes → Prop} (nil : P [])
    (unended : ∀ bs, bs ≠ [] → newline ∉ bs → P bs)
    (ended : ∀ body rest, newline ∉ body → P rest → P (body ++ newline :: rest)) (bs : Bytes) :
    P bs := by
  -- by length: what follows the first newline is shorter
  induction hn : bs.length using Nat.strongRecOn generalizing bs with
  | ind n ih =>
    by_cases hempty : bs = []
    · exact hempty ▸ nil
    · by_cases hmem : newline ∈ bs
      · obtain ⟨body, rest, rfl, hbody⟩ := List.eq_append_cons_of_mem hmem
        have hrest : rest.length < n := by
          rw [← hn, List.length_append, List.length_cons]
          omega
        exact ended body rest hbody (ih rest.length hrest rest rfl)
      · exact unended bs hempty hmem

theorem firstLength_pos {bs : Bytes} (h : bs ≠ []) : 0 < firstLength bs := by
  by_cases hmem : newline ∈ bs
  · obtain ⟨body, rest, rfl, hbody⟩ := List.eq_append_cons_of_mem hmem
    rw [firstLength_append_newline rest hbody]
    omega
  · rw [firstLength_of_newline_notMem hmem]
    exact List.length_pos_iff.2 h

theorem firstLength_le (bs : Bytes) : firstLength bs ≤ bs.length := by
  by_cases hmem : newline ∈ bs
  · obtain ⟨body, rest, rfl, hbody⟩ := List.eq_append_cons_of_mem hmem
    rw [firstLength_append_newline rest hbody, List.length_append, List.length_cons]
    omega
  · exact Nat.le_of_eq (firstLength_of_newline_notMem hmem)

theorem length_sub_firstLength_lt {bs : Bytes} (h : bs ≠ []) :
    bs.length - firstLength bs < bs.length :=
  Nat.sub_lt (List.length_pos_iff.2 h) (firstLength_pos h)

/-! ### All the lines -/

def recordsOf (strip : Bool) (content : Bytes) : List Bytes :=
  if h : content = [] then []
  else
    have := length_sub_firstLength_lt h
    firstRecord strip content :: recordsOf strip (content.drop (firstLength content))
termination_by content.length

@[simp] theorem recordsOf_nil (strip : Bool) : recordsOf strip [] = [] := by
  rw [recordsOf, dif_pos rfl]

theorem recordsOf_of_ne_nil (strip : Bool) {content : Bytes} (h : content ≠ []) :
    recordsOf strip content =
      firstRecord strip content :: recordsOf strip (content.drop (firstLength content)) := by
  rw [recordsOf, dif_neg h]

theorem recordsOf_eq_nil {strip : Bool} {content : Bytes} :
    recordsOf strip content = [] ↔ content = [] := by
  constructor
  · intro hrecords
    apply Decidable.byContradiction
    intro hne
    rw [recordsOf_of_ne_nil strip hne] at hrecords
    cases hrecords
  · rintro rfl
    exact recordsOf_nil strip

theorem recordsOf_unended (strip : Bool) {content : Bytes} (hne : content ≠ [])
    (h : newline ∉ content) : recordsOf strip content = [content] := by
  rw [recordsOf_of_ne_nil strip hne, firstRecord_of_newline_notMem strip h,
    firstLength_of_newline_notMem h, List.drop_length, recordsOf_nil]

theorem recordsOf_append_newline (strip : Bool) {body : Bytes} (rest : Bytes)
    (h : newline ∉ body) :
    recordsOf strip (body ++ newline :: rest) =
      (if strip then body else body ++ [newline]) :: recordsOf strip rest := by
  have hdrop : (body ++ newline :: rest).drop (body.length + 1) = rest := by
    rw [List.append_cons, ← List.length_singleton (a := newline), ← List.length_append,
      List.drop_left]
  rw [recordsOf_of_ne_nil strip (by simp), firstRecord_append_newline rest strip h,
    firstLength_append_newline rest h, hdrop]

theorem length_recordsOf_le (strip : Bool) (content : Bytes) :
    (recordsOf strip content).length ≤ content.length := by
  induction content using lines_induction with
  | nil => simp
  | unended bs hne hfree =>
    rw [recordsOf_unended strip hne hfree]
    exact List.length_pos_iff.2 hne
  | ended body rest hbody ih =>
    rw [recordsOf_append_newline strip rest hbody]
    simp only [List.length_cons, List.length_append]
    omega

/-! ### Cutting a content -/

def IsEnded (record : Bytes) : Prop :=
  ∃ body, newline ∉ body ∧ record = body ++ [newline]

/-- A content cut into records that keep their newlines. -/
structure IsCut (content : Bytes) (records : List Bytes) : Prop where
  flatten_eq : records.flatten = content
  ne_nil : ∀ record ∈ records, record ≠ []
  isEnded : ∀ record ∈ records.dropLast, IsEnded record
  last : ∀ record ∈ records.getLast?, IsEnded record ∨ newline ∉ record

theorem isCut_nil : IsCut [] [] :=
  ⟨rfl, by simp, by simp, by simp⟩

theorem isCut_unended {content : Bytes} (hne : content ≠ []) (h : newline ∉ content) :
    IsCut content [content] :=
  ⟨by simp, by simpa using hne, by simp, by simpa using Or.inr h⟩

theorem IsCut.cons {body rest : Bytes} {records : List Bytes} (h : IsCut rest records)
    (hbody : newline ∉ body) :
    IsCut (body ++ newline :: rest) ((body ++ [newline]) :: records) := by
  have hended : IsEnded (body ++ [newline]) := ⟨body, hbody, rfl⟩
  refine ⟨?_, ?_, ?_, ?_⟩
  · rw [List.flatten_cons, h.flatten_eq]
    simp
  · intro record hrecord
    rcases List.mem_cons.1 hrecord with rfl | hrecord
    · simp
    · exact h.ne_nil record hrecord
  · intro record hrecord
    cases records with
    | nil => simp at hrecord
    | cons second others =>
      rw [List.dropLast_cons_cons] at hrecord
      rcases List.mem_cons.1 hrecord with rfl | hrecord
      · exact hended
      · exact h.isEnded record hrecord
  · intro record hrecord
    cases records with
    | nil =>
      rw [List.getLast?_singleton, Option.mem_some_iff] at hrecord
      exact Or.inl (hrecord ▸ hended)
    | cons second others =>
      rw [List.getLast?_cons_cons] at hrecord
      exact h.last record hrecord

theorem isCut_recordsOf (content : Bytes) : IsCut content (recordsOf false content) := by
  induction content using lines_induction with
  | nil =>
    rw [recordsOf_nil]
    exact isCut_nil
  | unended bs hne hfree =>
    rw [recordsOf_unended false hne hfree]
    exact isCut_unended hne hfree
  | ended body rest hbody ih =>
    rw [recordsOf_append_newline false rest hbody]
    exact ih.cons hbody

/-! ### The cut is unique -/

theorem IsCut.eq_nil {records : List Bytes} (h : IsCut [] records) : records = [] := by
  cases records with
  | nil => rfl
  | cons first others =>
    have hfirst := List.flatten_eq_nil_iff.1 h.flatten_eq first (List.mem_cons_self ..)
    exact absurd hfirst (h.ne_nil first (List.mem_cons_self ..))

theorem IsCut.tail {first rest : Bytes} {others : List Bytes}
    (h : IsCut (first ++ rest) (first :: others)) : IsCut rest others := by
  refine ⟨?_, ?_, ?_, ?_⟩
  · exact List.append_cancel_left h.flatten_eq
  · intro record hrecord
    exact h.ne_nil record (List.mem_cons_of_mem first hrecord)
  · intro record hrecord
    cases others with
    | nil => simp at hrecord
    | cons second others =>
      exact h.isEnded record (List.mem_cons_of_mem first hrecord)
  · intro record hrecord
    cases others with
    | nil => simp at hrecord
    | cons second others =>
      exact h.last record (by rwa [List.getLast?_cons_cons])

theorem IsCut.first {content first : Bytes} {others : List Bytes}
    (h : IsCut content (first :: others)) : IsEnded first ∨ others = [] ∧ newline ∉ first := by
  cases others with
  | nil =>
    rcases h.last first rfl with hended | hfree
    · exact Or.inl hended
    · exact Or.inr ⟨rfl, hfree⟩
  | cons second others =>
    exact Or.inl (h.isEnded first (List.mem_cons_self ..))

theorem IsCut.eq_singleton {content : Bytes} {records : List Bytes} (h : IsCut content records)
    (hne : content ≠ []) (hfree : newline ∉ content) : records = [content] := by
  cases records with
  | nil => exact absurd h.flatten_eq.symm hne
  | cons first others =>
    rcases h.first with ⟨body, _, rfl⟩ | ⟨rfl, _⟩
    · refine absurd ?_ hfree
      rw [← h.flatten_eq]
      simp
    · rw [← h.flatten_eq]
      simp

theorem IsCut.eq_cons {body rest : Bytes} {records : List Bytes}
    (h : IsCut (body ++ newline :: rest) records) (hbody : newline ∉ body) :
    ∃ others, records = (body ++ [newline]) :: others ∧ IsCut rest others := by
  cases records with
  | nil => simpa using h.flatten_eq
  | cons first others =>
    rcases h.first with ⟨body', hbody', rfl⟩ | ⟨rfl, hfree⟩
    · have hsplit : body' ++ newline :: others.flatten = body ++ newline :: rest := by
        simpa using h.flatten_eq
      -- both sides begin with the same line
      have heq : body' = body := by
        rw [← firstBody_append_newline others.flatten hbody', hsplit,
          firstBody_append_newline rest hbody]
      subst heq
      rw [List.append_cons] at h
      exact ⟨others, rfl, h.tail⟩
    · refine absurd ?_ hfree
      have hsplit : first = body ++ newline :: rest := by
        simpa using h.flatten_eq
      rw [hsplit]
      simp

theorem IsCut.eq_recordsOf {content : Bytes} {records : List Bytes} (h : IsCut content records) :
    records = recordsOf false content := by
  induction content using lines_induction generalizing records with
  | nil =>
    rw [recordsOf_nil]
    exact h.eq_nil
  | unended bs hne hfree =>
    rw [recordsOf_unended false hne hfree]
    exact h.eq_singleton hne hfree
  | ended body rest hbody ih =>
    obtain ⟨others, rfl, hrest⟩ := h.eq_cons hbody
    rw [recordsOf_append_newline false rest hbody, ← ih hrest]
    rfl

theorem isCut_iff {content : Bytes} {records : List Bytes} :
    IsCut content records ↔ records = recordsOf false content := by
  constructor
  · exact IsCut.eq_recordsOf
  · rintro rfl
    exact isCut_recordsOf content

/-! ### How many there are -/

def IsUnfinished (content : Bytes) : Prop :=
  content ≠ [] ∧ content.getLast? ≠ some newline

instance (content : Bytes) : Decidable (IsUnfinished content) :=
  inferInstanceAs (Decidable (_ ∧ _))

theorem isUnfinished_append_newline (body rest : Bytes) :
    IsUnfinished (body ++ newline :: rest) ↔ IsUnfinished rest := by
  cases rest with
  | nil => simp [IsUnfinished]
  | cons b bs => simp [IsUnfinished, List.getLast?_append, List.getLast?_cons_cons]

theorem length_recordsOf (strip : Bool) (content : Bytes) :
    (recordsOf strip content).length =
      content.count newline + if IsUnfinished content then 1 else 0 := by
  induction content using lines_induction with
  | nil => rw [recordsOf_nil]; rfl
  | unended bs hne hfree =>
    have hlast : bs.getLast? ≠ some newline := by
      intro hlast
      exact hfree (List.mem_of_getLast? hlast)
    rw [recordsOf_unended strip hne hfree, List.count_eq_zero_of_not_mem hfree,
      if_pos ⟨hne, hlast⟩]
    rfl
  | ended body rest hbody ih =>
    rw [recordsOf_append_newline strip rest hbody, List.length_cons, ih, List.count_append,
      List.count_cons_self, List.count_eq_zero_of_not_mem hbody]
    simp only [isUnfinished_append_newline]
    omega

end FileAccess
