/-
  FileAccess/Proofs/Files/Descriptors.lean
  ========================================
  **Accounts of descriptors.**

  A host's accounts are kept against the descriptors that someone owns: those owned and
  those closed are together the ones that were taken, each of them once
  (`Host.Accounts`).  So the descriptors held are the ones owned, none is closed twice,
  and none that is owned has been closed.

  `Host.Settles` is what an operation does to the accounts: it carries them over to the
  descriptors owned afterwards, and leaves closed what was closed.  Reading a file whole
  changes nothing of what is owned; opening it for its lines adds the descriptor of a
  mapped source; the end of a source takes it away again.
-/
import FileAccess.Proofs.Files.Outcomes

namespace FileAccess

/-! ### Accounts -/

/-- Every descriptor taken so far is owned or has been closed, and that once. -/
def Host.Accounts (host : Host) (owned : List Descriptor) : Prop :=
  (owned ++ host.closed).Perm (List.range host.issued)

namespace Host

variable {host host' : Host} {owned owned' : List Descriptor}

theorem accounts_start : ({} : Host).Accounts [] :=
  List.Perm.refl _

namespace Accounts

theorem nodup (h : host.Accounts owned) : (owned ++ host.closed).Nodup :=
  h.nodup_iff.2 List.nodup_range

theorem notMem_closed (h : host.Accounts owned) {d : Descriptor} (howned : d ∈ owned) :
    d ∉ host.closed := by
  intro hclosed
  exact (List.nodup_append.1 h.nodup).2.2 d howned d hclosed rfl

theorem lt_issued_iff (h : host.Accounts owned) (d : Descriptor) :
    d < host.issued ↔ d ∈ owned ∨ d ∈ host.closed := by
  rw [← List.mem_range, ← h.mem_iff, List.mem_append]

theorem closed_count (h : host.Accounts owned) (d : Descriptor) :
    host.closed.count d = if d < host.issued ∧ d ∉ owned then 1 else 0 := by
  have hissued := h.lt_issued_iff d
  rw [(List.nodup_append.1 h.nodup).2.1.count]
  by_cases howned : d ∈ owned
  · rw [if_neg (h.notMem_closed howned), if_neg (fun hboth => hboth.2 howned)]
  · simp [hissued, howned]

theorem mem_held_iff (h : host.Accounts owned) (d : Descriptor) :
    d ∈ host.held ↔ d ∈ owned := by
  rw [held, List.mem_filter, List.mem_range, h.lt_issued_iff, Bool.not_eq_true', ← Bool.not_eq_true,
    List.contains_iff_mem]
  constructor
  · rintro ⟨howned | hclosed, hopen⟩
    · exact howned
    · exact absurd hclosed hopen
  · intro howned
    exact ⟨Or.inl howned, h.notMem_closed howned⟩

theorem held_perm (h : host.Accounts owned) : host.held.Perm owned := by
  have hheld : host.held.Nodup := List.nodup_range.filter _
  rw [List.perm_ext_iff_of_nodup hheld (List.nodup_append.1 h.nodup).1]
  exact h.mem_held_iff

/-- What is held is determined by what is owned. -/
theorem held_eq (h : host.Accounts owned) (h' : host'.Accounts owned) :
    host'.held = host.held := by
  have hsorted : ∀ g : Host, g.held.Pairwise (· < ·) := by
    intro g
    exact List.pairwise_lt_range.filter _
  apply List.Perm.eq_of_pairwise _ (hsorted host') (hsorted host)
    (h'.held_perm.trans h.held_perm.symm)
  intro a b _ _ hlt hgt
  exact absurd hgt (Nat.lt_asymm hlt)

end Accounts

/-! ### What an operation does to the accounts -/

/-- The accounts against what was owned before become accounts against what is owned
    after.  What was taken stays taken, and what was closed stays closed. -/
structure Settles (host host' : Host) (owned owned' : List Descriptor) : Prop where
  accounts : host.Accounts owned → host'.Accounts owned'
  closed_prefix : host.closed <+: host'.closed
  issued_le : host.issued ≤ host'.issued

namespace Settles

theorem trans {host'' : Host} {owned'' : List Descriptor} (h : Settles host host' owned owned')
    (h' : Settles host' host'' owned' owned'') : Settles host host'' owned owned'' := by
  constructor
  · intro haccounts
    exact h'.accounts (h.accounts haccounts)
  · exact h.closed_prefix.trans h'.closed_prefix
  · exact Nat.le_trans h.issued_le h'.issued_le

theorem of_perm (host : Host) (hperm : owned.Perm owned') : Settles host host owned owned' := by
  constructor
  · intro haccounts
    exact (hperm.symm.append_right _).trans haccounts
  · exact List.prefix_rfl
  · exact Nat.le_refl _

theorem untouched (hissued : host'.issued = host.issued) (hclosed : host'.closed = host.closed) :
    Settles host host' owned owned := by
  constructor
  · intro haccounts
    rwa [Accounts, hissued, hclosed]
  · exact hclosed ▸ List.prefix_rfl
  · exact Nat.le_of_eq hissued.symm

/-- A descriptor is taken, and owned from then on. -/
theorem taken (hissued : host'.issued = host.issued + 1) (hclosed : host'.closed = host.closed) :
    Settles host host' owned (host.issued :: owned) := by
  constructor
  · intro haccounts
    rw [Accounts, hissued, hclosed, List.range_succ, List.cons_append]
    exact (haccounts.cons _).trans (List.perm_append_singleton _ _).symm
  · exact hclosed ▸ List.prefix_rfl
  · exact hissued ▸ Nat.le_succ _

/-- Descriptors that are owned are closed. -/
theorem given {ds : List Descriptor} (hissued : host'.issued = host.issued)
    (hclosed : host'.closed = host.closed ++ ds) : Settles host host' (ds ++ owned) owned := by
  constructor
  · intro haccounts
    rw [Accounts, hissued, hclosed, ← List.append_assoc]
    refine List.Perm.trans ?_ haccounts
    rw [List.append_assoc ds]
    exact List.perm_append_comm
  · exact hclosed ▸ List.prefix_append _ _
  · exact Nat.le_of_eq hissued.symm

/-- A descriptor is taken and closed again. -/
theorem passing (hissued : host'.issued = host.issued + 1)
    (hclosed : host'.closed = host.closed ++ [host.issued]) :
    Settles host host' owned owned := by
  have htaken : Settles host { host with issued := host.issued + 1 } owned (host.issued :: owned) :=
    taken rfl rfl
  have hgiven : Settles { host with issued := host.issued + 1 } host' ([host.issued] ++ owned)
      owned := given hissued hclosed
  exact htaken.trans hgiven

theorem spared (h : host.Spares host') : Settles host host' owned owned := by
  rcases h with rfl | rfl
  · exact .untouched rfl rfl
  · exact .passing rfl rfl

end Settles

end Host

open Host

/-! ### Files -/

section Files

variable {owned : List Descriptor} (lookup : Lookup) (path : Bytes) (host : Host)

theorem OpenFile.status_settles :
    Settles host (OpenFile.status lookup path host).2 owned owned := by
  rcases OpenFile.acquire_fails_or_finds lookup path with ⟨e, hfails⟩ | ⟨target, report, hfinds⟩
  · rw [OpenFile.status_of_error (hfails host).1]
    exact .spared (hfails host).2
  · rw [OpenFile.status_found hfinds]
    exact .passing rfl rfl

theorem readWhole_settles (policy : MissingPolicy) :
    Settles host (readWhole lookup path policy host).2 owned owned := by
  rcases OpenFile.acquire_fails_or_finds lookup path with ⟨e, hfails⟩ | ⟨target, report, hfinds⟩
  · exact .spared (readWhole_spares (hfails host).1 policy)
  · rw [readWhole_found hfinds]
    exact .passing rfl rfl

end Files

/-! ### Line sources -/

def Store.descriptors : Store → List Descriptor
  | .buffered _ => []
  | .mapped _ d => [d]

/-- The descriptors that a source owns: one while it is mapped. -/
def LineSource.descriptors (source : LineSource) : List Descriptor :=
  source.store.elim [] Store.descriptors

def Opened.descriptors : Opened → List Descriptor
  | .source s => s.descriptors
  | _ => []

def Opened.isMapped : Opened → Bool
  | .source s => s.isMapped
  | _ => false

/-- What is owned through the result of an open. -/
def Opened.descriptorsOf : Except Error Opened → List Descriptor
  | .ok opened => opened.descriptors
  | .error _ => []

theorem Store.length_descriptors (store : Store) :
    store.descriptors.length = if store.isMapped then 1 else 0 := by
  cases store <;> rfl

theorem LineSource.length_descriptors (source : LineSource) :
    source.descriptors.length = if source.isMapped then 1 else 0 := by
  rw [LineSource.descriptors, LineSource.isMapped]
  cases source.store with
  | none => rfl
  | some store => exact store.length_descriptors

theorem Opened.length_descriptors (opened : Opened) :
    opened.descriptors.length = if opened.isMapped then 1 else 0 := by
  cases opened with
  | source source => exact source.length_descriptors
  | empty => rfl
  | absent => rfl

theorem openLines_settles {owned : List Descriptor} (lookup : Lookup) (path : Bytes)
    (options : LineOptions) (host : Host) :
    Settles host (openLines lookup path options host).2 owned
      (Opened.descriptorsOf (openLines lookup path options host).1 ++ owned) := by
  rcases OpenFile.acquire_fails_or_finds lookup path with ⟨e, hfails⟩ | ⟨target, report, hfinds⟩
  · obtain ⟨hspares, hnone⟩ := openLines_spares (hfails host).1 options
    have hnothing : Opened.descriptorsOf (openLines lookup path options host).1 = [] := by
      rcases hresult : (openLines lookup path options host).1 with e' | (source | _ | _)
      · rfl
      · exact absurd hresult (hnone source)
      · rfl
      · rfl
    rw [hnothing]
    exact .spared hspares
  · cases hfetch : (Purpose.lines options.threshold).fetch path target report.size with
    | error e =>
      rw [openLines_failed hfinds hfetch]
      exact .passing rfl rfl
    | ok content =>
      by_cases hlt : report.size < options.threshold
      · rw [openLines_buffered hfinds hlt hfetch]
        exact .passing rfl rfl
      · rw [openLines_mapped hfinds (Nat.not_lt.1 hlt) hfetch]
        exact .taken rfl rfl

/-! ### The end of a source -/

theorem LineSource.release_settles {owned : List Descriptor} (source : LineSource)
    (host : Host) :
    Settles host (source.release host).2 (source.descriptors ++ owned) owned := by
  rw [LineSource.release, LineSource.descriptors]
  cases source.store with
  | none => exact .untouched rfl rfl
  | some store =>
    cases store with
    | buffered content => exact .untouched rfl rfl
    | mapped content d => exact .given rfl rfl

theorem LineSource.store_release (source : LineSource) (host : Host) :
    (source.release host).1.store = none := by
  rw [LineSource.release]
  cases hstore : source.store with
  | none => exact hstore
  | some store => rfl

/-- A source that has been released has nothing left to let go of. -/
theorem LineSource.drop_release (source : LineSource) (host host' : Host) :
    (source.release host).1.drop host' = host' := by
  have hstore := source.store_release host
  rw [LineSource.drop, LineSource.release.eq_def (source.release host).1, hstore]

/-- To release a source and then to drop it is to drop it. -/
theorem Opened.close_eq_drop (opened : Opened) (host : Host) :
    opened.close host = opened.drop host := by
  cases opened with
  | source source => exact source.drop_release host _
  | empty => rfl
  | absent => rfl

theorem Opened.drop_settles {owned : List Descriptor} (opened : Opened) (host : Host) :
    Settles host (opened.drop host) (opened.descriptors ++ owned) owned := by
  cases opened with
  | source source => exact source.release_settles host
  | empty => exact .untouched rfl rfl
  | absent => exact .untouched rfl rfl

end FileAccess
