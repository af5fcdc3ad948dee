/-
  FileAccess/Proofs/Session/Handles.lean
  ======================================
  **Preference handles that share a format.**

  A history tells what was done with preference handles: a handle was made with a format
  of its own, or as a copy of another, or a format was set through one.  A handle is
  known by the place of the deed that made it.  Handles are `Related` when one was copied
  from the other, directly or through others, and `Shows` is the rule for the format that
  a handle shows: the one set last through a related handle, or else the one that the
  first of them was made with.

  The rule looks back over the whole history.  Cells do without: each handle made with
  a format of its own gets a new one, and a copy uses that of the other.  Handles are
  related exactly if they use one cell (`related_iff_cellOf_eq`), and what is in the cell
  is what they show (`Sound.exists_shows`).
-/
import FileAccess.Preferences
import Mathlib.Logic.Relation

namespace FileAccess

inductive Deed where
  | create (format : Timestamp.Format)
  | clone (handle : Nat)
  | set (handle : Nat) (format : Timestamp.Format)
deriving DecidableEq, Repr

/-- What was done with preference handles, the latest first. -/
abbrev History := List Deed

namespace History

variable {h h' : History} {deed : Deed} {i j k : Nat} {f g : Timestamp.Format}

/-! ### Places -/

/-- The deed at a place, counted from the first. -/
def at? : History → Nat → Option Deed
  | [], _ => none
  | deed :: h, i => if i = h.length then some deed else at? h i

theorem at?_cons_length (deed : Deed) (h : History) : at? (deed :: h) h.length = some deed :=
  if_pos rfl

theorem lt_length_of_at? (hat : h.at? i = some deed) : i < h.length := by
  induction h with
  | nil => cases hat
  | cons latest h ih =>
    rw [at?] at hat
    rw [List.length_cons]
    split at hat
    · rename_i hi
      exact Nat.lt_succ_of_le (Nat.le_of_eq hi)
    · exact Nat.lt_succ_of_lt (ih hat)

/-- What was done stays where it was done. -/
theorem at?_cons (hat : h.at? i = some deed) (latest : Deed) :
    at? (latest :: h) i = some deed := by
  have hne : i ≠ h.length := Nat.ne_of_lt (lt_length_of_at? hat)
  rw [at?, if_neg hne]
  exact hat

theorem at?_later (hlater : h <:+ h') (hat : h.at? i = some deed) : h'.at? i = some deed := by
  obtain ⟨since, rfl⟩ := hlater
  induction since with
  | nil => exact hat
  | cons latest since ih => exact at?_cons ih latest

theorem at?_cons_cases {latest : Deed} (hat : at? (latest :: h) i = some deed) :
    (i = h.length ∧ deed = latest) ∨ h.at? i = some deed := by
  rw [at?] at hat
  split at hat
  · rename_i hi
    exact Or.inl ⟨hi, (Option.some.inj hat).symm⟩
  · exact Or.inr hat

/-! ### Handles -/

/-- The deed at this place made a handle. -/
def IsHandle (h : History) (i : Nat) : Prop :=
  (∃ f, h.at? i = some (.create f)) ∨ ∃ j, h.at? i = some (.clone j)

theorem IsHandle.lt_length (hi : h.IsHandle i) : i < h.length := by
  rcases hi with ⟨f, hat⟩ | ⟨j, hat⟩
  · exact lt_length_of_at? hat
  · exact lt_length_of_at? hat

theorem IsHandle.later (hi : h.IsHandle i) (hlater : h <:+ h') : h'.IsHandle i := by
  rcases hi with ⟨f, hat⟩ | ⟨j, hat⟩
  · exact Or.inl ⟨f, at?_later hlater hat⟩
  · exact Or.inr ⟨j, at?_later hlater hat⟩

theorem IsHandle.cons (hi : h.IsHandle i) (latest : Deed) : IsHandle (latest :: h) i :=
  hi.later (List.suffix_cons latest h)

theorem isHandle_create (f : Timestamp.Format) (h : History) :
    IsHandle (.create f :: h) h.length :=
  Or.inl ⟨f, at?_cons_length _ h⟩

theorem isHandle_clone (j : Nat) (h : History) : IsHandle (.clone j :: h) h.length :=
  Or.inr ⟨j, at?_cons_length _ h⟩

theorem IsHandle.cases_cons {latest : Deed} (hi : IsHandle (latest :: h) i) :
    (i = h.length ∧ ∃ f, latest = .create f) ∨ (i = h.length ∧ ∃ j, latest = .clone j) ∨
      h.IsHandle i := by
  rcases hi with ⟨f, hat⟩ | ⟨j, hat⟩
  · rcases at?_cons_cases hat with ⟨hlast, hdeed⟩ | hat
    · exact Or.inl ⟨hlast, f, hdeed.symm⟩
    · exact Or.inr (Or.inr (Or.inl ⟨f, hat⟩))
  · rcases at?_cons_cases hat with ⟨hlast, hdeed⟩ | hat
    · exact Or.inr (Or.inl ⟨hlast, j, hdeed.symm⟩)
    · exact Or.inr (Or.inr (Or.inr ⟨j, hat⟩))

/-- A deed uses a handle that there is. -/
def Fits (h : History) : Deed → Prop
  | .create _ => True
  | .clone i => h.IsHandle i
  | .set i _ => h.IsHandle i

theorem Fits.cons (hfits : h.Fits deed) (latest : Deed) : Fits (latest :: h) deed := by
  cases deed with
  | create f => trivial
  | clone i => exact IsHandle.cons hfits latest
  | set i f => exact IsHandle.cons hfits latest

def Sound : History → Prop
  | [] => True
  | deed :: h => Fits h deed ∧ Sound h

theorem Sound.fits (hsound : h.Sound) (hat : h.at? i = some deed) : h.Fits deed := by
  induction h with
  | nil => cases hat
  | cons latest h ih =>
    rcases at?_cons_cases hat with ⟨_, rfl⟩ | hat
    · exact hsound.1.cons deed
    · exact (ih hsound.2 hat).cons latest

/-! ### Related handles -/

/-- One was copied from the other, directly or through others. -/
def Related (h : History) : Nat → Nat → Prop :=
  Relation.EqvGen fun i j => h.at? j = some (.clone i)

theorem Related.refl (h : History) (i : Nat) : h.Related i i :=
  Relation.EqvGen.refl i

theorem Related.symm (hij : h.Related i j) : h.Related j i :=
  Relation.EqvGen.symm i j hij

theorem Related.trans (hij : h.Related i j) (hjk : h.Related j k) : h.Related i k :=
  Relation.EqvGen.trans i j k hij hjk

theorem Related.later (hij : h.Related i j) (hlater : h <:+ h') : h'.Related i j := by
  refine Relation.EqvGen.mono ?_ i j hij
  intro a b hat
  exact at?_later hlater hat

theorem Related.cons (hij : h.Related i j) (latest : Deed) : Related (latest :: h) i j :=
  hij.later (List.suffix_cons latest h)

theorem related_clone (j : Nat) (h : History) : Related (.clone j :: h) h.length j :=
  Related.symm (Relation.EqvGen.rel j h.length (at?_cons_length _ h))

/-! ### What a handle shows -/

/-- The rule for the format of a handle: the last one set through a related handle, or,
    where none was, the one that a related handle was made with. -/
inductive Shows (h : History) (i : Nat) (f : Timestamp.Format) : Prop where
  | set {k j : Nat} (hset : h.at? k = some (.set j f)) (hrelated : h.Related i j)
      (hlast : ∀ k' j' f', k < k' → h.at? k' = some (.set j' f') → ¬ h.Related i j')
  | created {j : Nat} (hcreate : h.at? j = some (.create f)) (hrelated : h.Related i j)
      (hunset : ∀ k j' f', h.at? k = some (.set j' f') → ¬ h.Related i j')

theorem Shows.of_related (hij : h.Related i j) (hshows : h.Shows j f) : h.Shows i f := by
  cases hshows with
  | set hset hrelated hlast =>
    refine .set hset (hij.trans hrelated) ?_
    intro k' j' f' hlt hat hij'
    exact hlast k' j' f' hlt hat (hij.symm.trans hij')
  | created hcreate hrelated hunset =>
    refine .created hcreate (hij.trans hrelated) ?_
    intro k j' f' hat hij'
    exact hunset k j' f' hat (hij.symm.trans hij')

/-- No deed from this place on sets a handle that is related to this one. -/
def LeavesAlone (h : History) (place i : Nat) : Prop :=
  ∀ k j f, place ≤ k → h.at? k = some (.set j f) → ¬ h.Related i j

/-! ### Cells -/

def isCreate : Deed → Bool
  | .create _ => true
  | _ => false

/-- The number of the cell that a handle uses. -/
def cellOf : History → Nat → Nat
  | [], _ => 0
  | .create _ :: h, i => if i = h.length then h.countP isCreate else cellOf h i
  | .clone j :: h, i => if i = h.length then cellOf h j else cellOf h i
  | .set _ _ :: h, i => cellOf h i

/-- The cells, each with the format in it. -/
def cells : History → List Timestamp.Format
  | [] => []
  | .create f :: h => cells h ++ [f]
  | .clone _ :: h => cells h
  | .set i f :: h => (cells h).set (cellOf h i) f

theorem length_cells (h : History) : h.cells.length = h.countP isCreate := by
  induction h with
  | nil => rfl
  | cons latest h ih =>
    cases latest with
    | create f => rw [cells, List.length_append, ih, List.countP_cons_of_pos rfl]; rfl
    | clone j => rw [cells, ih, List.countP_cons_of_neg Bool.false_ne_true]
    | set i f => rw [cells, List.length_set, ih, List.countP_cons_of_neg Bool.false_ne_true]

theorem cellOf_create (f : Timestamp.Format) (h : History) :
    cellOf (.create f :: h) h.length = h.cells.length := by
  rw [cellOf, if_pos rfl, length_cells]

theorem cellOf_clone (j : Nat) (h : History) : cellOf (.clone j :: h) h.length = h.cellOf j :=
  if_pos rfl

theorem cellOf_cons (hi : i < h.length) (latest : Deed) :
    cellOf (latest :: h) i = h.cellOf i := by
  have hne : i ≠ h.length := Nat.ne_of_lt hi
  cases latest with
  | create f => exact if_neg hne
  | clone j => exact if_neg hne
  | set j f => rfl

theorem IsHandle.cellOf_lt (hi : h.IsHandle i) (hsound : h.Sound) :
    h.cellOf i < h.cells.length := by
  induction h generalizing i with
  | nil => exact absurd hi.lt_length (Nat.not_lt_zero i)
  | cons latest h ih =>
    have hle : (cells h).length ≤ (cells (latest :: h)).length := by
      rw [length_cells, length_cells, List.countP_cons]
      exact Nat.le_add_right _ _
    rcases hi.cases_cons with ⟨rfl, f, rfl⟩ | ⟨rfl, j, rfl⟩ | hi
    · rw [cellOf_create, cells, List.length_append]
      exact Nat.lt_succ_self _
    · rw [cellOf_clone]
      exact Nat.lt_of_lt_of_le (ih hsound.1 hsound.2) hle
    · rw [cellOf_cons hi.lt_length]
      exact Nat.lt_of_lt_of_le (ih hi hsound.2) hle

theorem Sound.cellOf_eq_of_clone (hsound : h.Sound) (hat : h.at? j = some (.clone i)) :
    h.cellOf i = h.cellOf j := by
  induction h with
  | nil => cases hat
  | cons latest h ih =>
    rcases at?_cons_cases hat with ⟨rfl, rfl⟩ | hat
    · have hi : IsHandle h i := hsound.1
      rw [cellOf_clone, cellOf_cons hi.lt_length]
    · have hi : IsHandle h i := hsound.2.fits hat
      rw [cellOf_cons hi.lt_length, cellOf_cons (lt_length_of_at? hat)]
      exact ih hsound.2 hat

theorem Sound.cellOf_eq_of_related (hsound : h.Sound) (hij : h.Related i j) :
    h.cellOf i = h.cellOf j := by
  induction hij with
  | rel a b hat => exact hsound.cellOf_eq_of_clone hat
  | refl a => rfl
  | symm a b _ ih => exact ih.symm
  | trans a b c _ _ hab hbc => exact hab.trans hbc

/-- A handle with a cell of its own shares it with no handle there was. -/
theorem cellOf_create_ne (hsound : h.Sound) (hi : h.IsHandle i) (f : Timestamp.Format) :
    cellOf (.create f :: h) h.length ≠ cellOf (.create f :: h) i := by
  rw [cellOf_create, cellOf_cons hi.lt_length]
  exact Nat.ne_of_gt (hi.cellOf_lt hsound)

/-- Every handle is related to one that was made with a format of its own. -/
theorem Sound.exists_created (hsound : h.Sound) (hi : h.IsHandle i) :
    ∃ j f, h.at? j = some (.create f) ∧ h.Related i j := by
  induction h generalizing i with
  | nil => exact absurd hi.lt_length (Nat.not_lt_zero i)
  | cons latest h ih =>
    have hold : ∀ {i}, IsHandle h i →
        ∃ j f, at? (latest :: h) j = some (.create f) ∧ Related (latest :: h) i j := by
      intro i hi
      obtain ⟨j, f, hat, hij⟩ := ih hsound.2 hi
      exact ⟨j, f, at?_cons hat latest, hij.cons latest⟩
    rcases hi.cases_cons with ⟨rfl, f, rfl⟩ | ⟨rfl, k, rfl⟩ | hi
    · exact ⟨_, f, at?_cons_length _ h, .refl _ _⟩
    · obtain ⟨j, f, hat, hkj⟩ := hold hsound.1
      exact ⟨j, f, hat, (related_clone k h).trans hkj⟩
    · exact hold hi

theorem Sound.created_eq (hsound : h.Sound) (hi : h.at? i = some (.create f))
    (hj : h.at? j = some (.create g)) (heq : h.cellOf i = h.cellOf j) : i = j := by
  induction h with
  | nil => cases hi
  | cons latest h ih =>
    rcases at?_cons_cases hi with ⟨rfl, rfl⟩ | hati
    · rcases at?_cons_cases hj with ⟨rfl, _⟩ | hatj
      · rfl
      · exact absurd heq (cellOf_create_ne hsound.2 (Or.inl ⟨g, hatj⟩) f)
    · rcases at?_cons_cases hj with ⟨rfl, rfl⟩ | hatj
      · exact absurd heq.symm (cellOf_create_ne hsound.2 (Or.inl ⟨f, hati⟩) g)
      · rw [cellOf_cons (lt_length_of_at? hati), cellOf_cons (lt_length_of_at? hatj)] at heq
        exact ih hsound.2 hati hatj heq

/-- **Handles are related exactly if they use one cell.** -/
theorem Sound.related_iff_cellOf_eq (hsound : h.Sound) (hi : h.IsHandle i) (hj : h.IsHandle j) :
    h.Related i j ↔ h.cellOf i = h.cellOf j := by
  constructor
  · exact hsound.cellOf_eq_of_related
  · intro heq
    obtain ⟨i', f, hati, hii'⟩ := hsound.exists_created hi
    obtain ⟨j', g, hatj, hjj'⟩ := hsound.exists_created hj
    have hcell : h.cellOf i' = h.cellOf j' := by
      rw [← hsound.cellOf_eq_of_related hii', heq, hsound.cellOf_eq_of_related hjj']
    obtain rfl : i' = j' := hsound.created_eq hati hatj hcell
    exact hii'.trans hjj'.symm

/-! ### The rule and the cells -/

/-- No handle shows two formats. -/
theorem Sound.shows_unique (hsound : h.Sound) (hf : h.Shows i f) (hg : h.Shows i g) : f = g := by
  cases hf with
  | @set k j hset hrelated hlast =>
    cases hg with
    | @set k' j' hset' hrelated' hlast' =>
      rcases Nat.lt_trichotomy k k' with hlt | rfl | hlt
      · exact absurd hrelated' (hlast k' j' g hlt hset')
      · cases hset.symm.trans hset'
        rfl
      · exact absurd hrelated (hlast' k j f hlt hset)
    | created hcreate' hrelated' hunset' => exact absurd hrelated (hunset' k j f hset)
  | @created j hcreate hrelated hunset =>
    cases hg with
    | @set k' j' hset' hrelated' hlast' => exact absurd hrelated' (hunset k' j' g hset')
    | @created j' hcreate' hrelated' hunset' =>
      have hcell := hsound.cellOf_eq_of_related (hrelated.symm.trans hrelated')
      obtain rfl : j = j' := hsound.created_eq hcreate hcreate' hcell
      cases hcreate.symm.trans hcreate'
      rfl

/-- Handles that there were are related as they were. -/
theorem Sound.related_cons_iff {latest : Deed} (hsound : Sound (latest :: h))
    (hi : h.IsHandle i) (hj : h.IsHandle j) : Related (latest :: h) i j ↔ h.Related i j := by
  rw [hsound.related_iff_cellOf_eq (hi.cons latest) (hj.cons latest),
    hsound.2.related_iff_cellOf_eq hi hj, cellOf_cons hi.lt_length, cellOf_cons hj.lt_length]

/-- **What a handle shows is changed only by setting a related handle.** -/
theorem Shows.cons {latest : Deed} (hshows : h.Shows i f) (hi : h.IsHandle i)
    (hsound : Sound (latest :: h)) (hother : ∀ j g, latest = .set j g → ¬ h.Related i j) :
    Shows (latest :: h) i f := by
  -- a set through a related handle is an old one
  have hold : ∀ k j g, at? (latest :: h) k = some (.set j g) → Related (latest :: h) i j →
      h.at? k = some (.set j g) ∧ h.Related i j := by
    intro k j g hat hij
    rcases at?_cons_cases hat with ⟨_, hset⟩ | hat
    · subst hset
      exact absurd ((hsound.related_cons_iff hi hsound.1).1 hij) (hother j g rfl)
    · exact ⟨hat, (hsound.related_cons_iff hi (hsound.2.fits hat)).1 hij⟩
  cases hshows with
  | set hset hrelated hlast =>
    refine .set (at?_cons hset latest) (hrelated.cons latest) ?_
    intro k' j' f' hlt hat hij
    obtain ⟨hat, hij⟩ := hold k' j' f' hat hij
    exact hlast k' j' f' hlt hat hij
  | created hcreate hrelated hunset =>
    refine .created (at?_cons hcreate latest) (hrelated.cons latest) ?_
    intro k j g hat hij
    obtain ⟨hat, hij⟩ := hold k j g hat hij
    exact hunset k j g hat hij

/-- A set is seen through every related handle. -/
theorem shows_set (hij : h.Related i j) (f : Timestamp.Format) : Shows (.set j f :: h) i f := by
  refine .set (at?_cons_length _ h) (hij.cons _) ?_
  intro k' j' f' hlt hat
  have hle := lt_length_of_at? hat
  rw [List.length_cons] at hle
  exact absurd hlt (Nat.not_lt.2 (Nat.le_of_lt_succ hle))

theorem shows_create (hsound : h.Sound) (f : Timestamp.Format) :
    Shows (.create f :: h) h.length f := by
  refine .created (at?_cons_length _ h) (.refl _ _) ?_
  intro k j g hat hij
  rcases at?_cons_cases hat with ⟨_, hset⟩ | hat
  · cases hset
  · have hsound' : Sound (.create f :: h) := ⟨trivial, hsound⟩
    exact cellOf_create_ne hsound (hsound.fits hat) f (hsound'.cellOf_eq_of_related hij)

/-- **In the cell of a handle is what it shows.** -/
theorem Sound.exists_shows (hsound : h.Sound) (hi : h.IsHandle i) :
    ∃ f, h.cells[h.cellOf i]? = some f ∧ h.Shows i f := by
  induction h generalizing i with
  | nil => exact absurd hi.lt_length (Nat.not_lt_zero i)
  | cons latest h ih =>
    obtain ⟨hfits, hsound₀⟩ := id hsound
    rcases hi.cases_cons with ⟨rfl, f, rfl⟩ | ⟨rfl, j, rfl⟩ | hold
    · refine ⟨f, ?_, shows_create hsound₀ f⟩
      rw [cellOf_create, cells, List.getElem?_concat_length]
    · obtain ⟨f, hcell, hshows⟩ := ih hsound₀ hfits
      refine ⟨f, ?_, (hshows.cons hfits hsound nofun).of_related (related_clone j h)⟩
      rw [cellOf_clone]
      exact hcell
    · obtain ⟨f, hcell, hshows⟩ := ih hsound₀ hold
      have hlt := hold.cellOf_lt hsound₀
      rw [cellOf_cons hold.lt_length]
      cases latest with
      | create g =>
        refine ⟨f, ?_, hshows.cons hold hsound nofun⟩
        rw [cells, List.getElem?_append_left hlt]
        exact hcell
      | clone j => exact ⟨f, hcell, hshows.cons hold hsound nofun⟩
      | set j g =>
        by_cases hcells : cellOf h j = cellOf h i
        · refine ⟨g, ?_, shows_set ((hsound₀.related_iff_cellOf_eq hold hfits).2 hcells.symm) g⟩
          rw [cells, hcells, List.getElem?_set_self hlt]
        · refine ⟨f, ?_, hshows.cons hold hsound ?_⟩
          · rw [cells, List.getElem?_set_ne hcells]
            exact hcell
          · rintro j' g' hset hij
            cases hset
            exact hcells (hsound₀.cellOf_eq_of_related hij).symm

/-- A format set through a copy is in the cell of both, and not in that of a third handle. -/
example : cells [.set 1 .integer, .create .fractional, .clone 0, .create .fractional] =
    [.integer, .fractional] :=
  rfl

end History

end FileAccess
