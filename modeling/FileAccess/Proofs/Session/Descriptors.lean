/-
  FileAccess/Proofs/Session/Descriptors.lean
  ==========================================
  **The descriptors of a session.**

  A session owns the descriptors of the sources that its names stand for, and its
  accounts are kept against these (`Session.Accounted`).  Every step settles them: a
  read takes a descriptor and closes it again, an open hands the descriptor of a mapped
  source to the name it is stored under, and whatever ends the life of a source, a
  release, a drop, or another open under its name, closes its descriptor
  (`Session.step_follows`).  So in every state that a session can reach, as many
  descriptors are held as there are mapped sources.
-/
import FileAccess.Proofs.Session.Actions

namespace FileAccess

open Host

namespace Session

/-! ### What a session owns -/

def ownedBy (registry : Registry Opened) : List Descriptor :=
  registry.flatMap fun entry => entry.2.descriptors

def owned (s : Session) : List Descriptor :=
  ownedBy s.opened

structure Accounted (s : Session) : Prop where
  distinct : s.opened.Distinct
  accounts : s.host.Accounts s.owned

/-- One session follows another: its accounts are in order, what was taken stays taken,
    and what was closed stays closed. -/
structure Follows (s s' : Session) : Prop where
  accounted : s'.Accounted
  closed_prefix : s.host.closed <+: s'.host.closed
  issued_le : s.host.issued ≤ s'.host.issued

variable {s s' s'' : Session} {name : String} {opened : Opened}

theorem Follows.trans (h : Follows s s') (h' : Follows s' s'') : Follows s s'' := by
  refine ⟨h'.accounted, ?_, ?_⟩
  · exact h.closed_prefix.trans h'.closed_prefix
  · exact Nat.le_trans h.issued_le h'.issued_le

/-- The accounts are settled by what becomes of the host, as long as no name comes to
    stand for two things. -/
theorem Accounted.follows (h : s.Accounted) (hdistinct : s'.opened.Distinct)
    (hsettles : Settles s.host s'.host s.owned s'.owned) : Follows s s' := by
  refine ⟨⟨hdistinct, ?_⟩, hsettles.closed_prefix, hsettles.issued_le⟩
  exact hsettles.accounts h.accounts

/-- Two sessions that differ in nothing that bears on descriptors. -/
structure HoldsAs (s s' : Session) : Prop where
  opened_eq : s'.opened = s.opened
  issued_eq : s'.host.issued = s.host.issued
  closed_eq : s'.host.closed = s.host.closed

theorem Accounted.follows_of_holdsAs (h : s.Accounted) (hsame : HoldsAs s s') :
    Follows s s' := by
  apply h.follows
  · rw [hsame.opened_eq]
    exact h.distinct
  · rw [owned, owned, hsame.opened_eq]
    exact .untouched hsame.issued_eq hsame.closed_eq

/-! ### Names -/

theorem ownedBy_perm {registry : Registry Opened} (hdistinct : registry.Distinct)
    (hget : registry.get? name = some opened) :
    (ownedBy registry).Perm (opened.descriptors ++ ownedBy (registry.erase name)) :=
  (hdistinct.perm_cons_erase hget).flatMap_right _

/-- What a name stood for is closed when the name is taken away, whatever else is
    owned. -/
theorem dropName_settles (hdistinct : s.opened.Distinct) (name : String)
    (others : List Descriptor) :
    Settles s.host (s.dropName name).host (others ++ s.owned)
      (others ++ (s.dropName name).owned) := by
  rw [owned, owned, dropName_opened, dropName]
  cases hget : s.opened.get? name with
  | none =>
    rw [Registry.erase_of_get?_eq_none hget]
    exact .untouched rfl rfl
  | some opened =>
    have hperm : (others ++ ownedBy s.opened).Perm
        (opened.descriptors ++ (others ++ ownedBy (s.opened.erase name))) :=
      ((ownedBy_perm hdistinct hget).append_left others).trans
        (List.perm_append_comm_assoc _ _ _)
    exact (Settles.of_perm s.host hperm).trans (opened.drop_settles s.host)

theorem Accounted.dropName (h : s.Accounted) (name : String) : Follows s (s.dropName name) := by
  apply h.follows
  · rw [dropName_opened]
    exact h.distinct.erase name
  · exact dropName_settles h.distinct name []

/-- What a name stands for can be put in the place of something that owns as much. -/
theorem Accounted.store (h : s.Accounted) (hget : s.opened.get? name = some opened)
    {opened' : Opened} (hsame : opened'.descriptors = opened.descriptors) :
    Follows s { s with opened := s.opened.store name opened' } := by
  apply h.follows
  · exact h.distinct.store name opened'
  · have hperm := ownedBy_perm h.distinct hget
    rw [← hsame] at hperm
    exact .of_perm s.host hperm

/-- What is stored under a name owns its descriptors there, and what was there before
    is closed. -/
theorem storeOpened_settles (hdistinct : s.opened.Distinct) (name : String) (opened : Opened) :
    Settles s.host (s.storeOpened name opened).host (opened.descriptors ++ s.owned)
      (s.storeOpened name opened).owned := by
  have hstored : (s.storeOpened name opened).owned =
      opened.descriptors ++ (s.dropName name).owned := by
    rw [owned, storeOpened_opened, owned, dropName_opened]
    rfl
  rw [hstored]
  exact dropName_settles hdistinct name opened.descriptors

theorem Accounted.storeOpened (h : s.Accounted) {host : Host} (name : String)
    (hsettles : Settles s.host host s.owned (opened.descriptors ++ s.owned)) :
    Follows s ({ s with host := host }.storeOpened name opened) := by
  have hdistinct : ({ s with host := host } : Session).opened.Distinct := h.distinct
  apply h.follows
  · rw [storeOpened_opened]
    exact hdistinct.store name opened
  · exact hsettles.trans (storeOpened_settles hdistinct name opened)

/-! ### Actions -/

theorem Accounted.act (h : s.Accounted) (hget : s.opened.get? name = some opened)
    (action : Action) : Follows s (s.act name opened action).2 := by
  rcases act_cases hget action with ⟨_, hact⟩ | ⟨opened', hafter, hact⟩ | ⟨_, hact⟩
  · rw [hact]
    exact h.follows_of_holdsAs ⟨rfl, rfl, rfl⟩
  · rw [hact]
    exact h.store hget (Opened.descriptors_after hafter)
  · rw [hact]
    exact h.dropName name

/-! ### Steps -/

theorem preferencesOf_holdsAs (s : Session) (origin : PreferenceOrigin) :
    HoldsAs s (s.preferencesOf origin).2 := by
  unfold preferencesOf
  cases origin with
  | share name => dsimp only; split <;> exact ⟨rfl, rfl, rfl⟩
  | settings name => dsimp only; split <;> exact ⟨rfl, rfl, rfl⟩
  | format format => exact ⟨rfl, rfl, rfl⟩
  | standard => exact ⟨rfl, rfl, rfl⟩

theorem optionsOf_holdsAs (s : Session) (request : OpenRequest) :
    HoldsAs s (s.optionsOf request).2 := by
  unfold optionsOf
  dsimp only
  split <;> exact ⟨rfl, rfl, rfl⟩

theorem Accounted.step_openLines (h : s.Accounted) (name : String) (path : Bytes)
    (request : OpenRequest) (inBackground : Bool) :
    Follows s (s.step (.openLines name path request inBackground)).2 := by
  have hsame := s.optionsOf_holdsAs request
  have hoptions : Settles s.host (s.optionsOf request).2.host s.owned s.owned :=
    .untouched hsame.issued_eq hsame.closed_eq
  have hsettles : Settles s.host (s.attemptLines path request).2 s.owned
      (Opened.descriptorsOf (s.attemptLines path request).1 ++ s.owned) :=
    hoptions.trans (openLines_settles s.tree.find path _ _)
  rcases hattempt : s.attemptLines path request with ⟨result, host⟩
  rw [hattempt] at hsettles
  cases result with
  | ok opened =>
    rw [step_openLines_of_ok hattempt]
    exact h.storeOpened name hsettles
  | error e =>
    rw [step_openLines_of_error hattempt]
    exact h.follows h.distinct hsettles

/-- **Every step settles the accounts.** -/
theorem Accounted.step (h : s.Accounted) (step : Step) : Follows s (s.step step).2 := by
  cases step with
  | status path =>
    rw [step_status_snd]
    exact h.follows h.distinct (OpenFile.status_settles _ _ _)
  | readWhole path policy inBackground =>
    rw [step_readWhole_snd]
    exact h.follows h.distinct (readWhole_settles _ _ _ _)
  | newPreferences name origin =>
    have hsame := s.preferencesOf_holdsAs origin
    exact h.follows_of_holdsAs ⟨hsame.opened_eq, hsame.issued_eq, hsame.closed_eq⟩
  | openLines name path request inBackground => exact h.step_openLines name path request inBackground
  | on name action =>
    unfold Session.step
    dsimp only
    split
    · exact h.follows_of_holdsAs ⟨rfl, rfl, rfl⟩
    · rename_i hget
      exact h.act hget action
  -- the other steps leave the descriptors and what is opened as they are
  | _ =>
    unfold Session.step
    dsimp only
    repeat' split
    all_goals exact h.follows_of_holdsAs ⟨rfl, rfl, rfl⟩

theorem accounted_start (tree : Tree) (configHome : Option Bytes) : (start tree configHome).Accounted :=
  ⟨Registry.distinct_nil, accounts_start⟩

theorem Accounted.run (h : s.Accounted) (steps : List Step) : Follows s (s.run steps).2 := by
  induction steps generalizing s with
  | nil => exact h.follows_of_holdsAs ⟨rfl, rfl, rfl⟩
  | cons first others ih =>
    have hfirst := h.step first
    exact hfirst.trans (ih hfirst.accounted)

/-! ### The descriptors held -/

theorem length_owned (s : Session) :
    s.owned.length = s.opened.countP fun entry => entry.2.isMapped := by
  rw [owned, ownedBy]
  induction s.opened with
  | nil => rfl
  | cons entry entries ih =>
    rw [List.flatMap_cons, List.length_append, ih, entry.2.length_descriptors, List.countP_cons,
      Nat.add_comm]

theorem Accounted.owns (h : s.Accounted) (hget : s.opened.get? name = some opened)
    {d : Descriptor} (hd : d ∈ opened.descriptors) : d ∈ s.owned := by
  have hperm := ownedBy_perm h.distinct hget
  exact hperm.mem_iff.2 (List.mem_append_left _ hd)

/-- A name that is taken away takes the descriptors of what it stood for out of those
    owned. -/
theorem Accounted.notMem_owned_dropName (h : s.Accounted)
    (hget : s.opened.get? name = some opened) {d : Descriptor} (hd : d ∈ opened.descriptors) :
    d ∉ (s.dropName name).owned := by
  have hnodup : s.owned.Nodup := (List.nodup_append.1 h.accounts.nodup).1
  have hperm := ownedBy_perm h.distinct hget
  have hsplit := List.nodup_append.1 (hperm.nodup_iff.1 hnodup)
  rw [owned, dropName_opened]
  intro hmem
  exact hsplit.2.2 d hd d hmem rfl

/-- What a name stood for has been closed once the name is taken away. -/
theorem Accounted.mem_closed_dropName (h : s.Accounted)
    (hget : s.opened.get? name = some opened) {d : Descriptor} (hd : d ∈ opened.descriptors) :
    d ∈ (s.dropName name).host.closed := by
  have hdropped := h.dropName name
  have hissued : d < (s.dropName name).host.issued := by
    have htaken := (h.accounts.lt_issued_iff d).2 (Or.inl (h.owns hget hd))
    exact Nat.lt_of_lt_of_le htaken hdropped.issued_le
  rcases (hdropped.accounted.accounts.lt_issued_iff d).1 hissued with howned | hclosed
  · exact absurd howned (h.notMem_owned_dropName hget hd)
  · exact hclosed

theorem step_on_end (hget : s.opened.get? name = some opened) {action : Action}
    (haction : action = .release ∨ action = .drop) :
    (s.step (.on name action)).2 = s.dropName name := by
  have hstep : (s.step (.on name action)).2 = (s.act name opened action).2 := by
    simp only [step, hget]
  rw [hstep]
  rcases haction with rfl | rfl
  · rw [← closeName_eq_dropName hget]
    cases opened <;> rfl
  · rfl

/-- The accounts of descriptors in a state of a session. -/
structure DescriptorsInOrder (s : Session) : Prop where
  /-- As many descriptors are held as there are mapped sources, -/
  held_length : s.host.held.length = s.opened.countP fun entry => entry.2.isMapped
  /-- and they are the descriptors of these sources. -/
  held_perm : s.host.held.Perm s.owned
  /-- Every other descriptor that was taken has been closed once. -/
  closed_count : ∀ d, s.host.closed.count d = if d < s.host.issued ∧ d ∉ s.owned then 1 else 0
  /-- Reading whole leaves the descriptors held as they are, however it ends. -/
  readWhole : ∀ lookup path policy,
    (FileAccess.readWhole lookup path policy s.host).2.held = s.host.held
  /-- So does an open whose result is not a mapped source, -/
  unmapped : ∀ lookup path options,
    (∀ opened, (openLines lookup path options s.host).1 = .ok opened → opened.isMapped = false) →
      (openLines lookup path options s.host).2.held = s.host.held
  /-- and one whose result is a mapped source adds the descriptor of that source. -/
  mapped : ∀ lookup path options opened,
    (openLines lookup path options s.host).1 = .ok opened → opened.isMapped = true →
      ∃ d, opened.descriptors = [d] ∧ d ∉ s.host.held ∧
        (openLines lookup path options s.host).2.held.Perm (d :: s.host.held)
  /-- In every later state the descriptor of a source has been closed once if no source
      owns it any more, and not at all if one does. -/
  once : ∀ d ∈ s.owned, ∀ steps,
    (s.run steps).2.host.closed.count d = if d ∈ (s.run steps).2.owned then 0 else 1
  /-- A release or a drop closes it for good: no source owns it afterwards, and it has
      been closed once. -/
  ended : ∀ name opened, s.opened.get? name = some opened → ∀ d ∈ opened.descriptors,
    d ∈ s.owned ∧ ∀ action, action = .release ∨ action = .drop → ∀ steps,
      d ∉ ((s.step (.on name action)).2.run steps).2.owned ∧
        ((s.step (.on name action)).2.run steps).2.host.closed.count d = 1

theorem Accounted.descriptorsInOrder (h : s.Accounted) : DescriptorsInOrder s := by
  have haccounts := h.accounts
  constructor
  case held_length =>
    rw [← length_owned]
    exact haccounts.held_perm.length_eq
  case held_perm => exact haccounts.held_perm
  case closed_count => exact haccounts.closed_count
  case readWhole =>
    intro lookup path policy
    exact haccounts.held_eq ((readWhole_settles lookup path s.host policy).accounts haccounts)
  case unmapped =>
    intro lookup path options hunmapped
    have hafter := (openLines_settles lookup path options s.host).accounts haccounts
    have hnone : Opened.descriptorsOf (openLines lookup path options s.host).1 = [] := by
      cases hresult : (openLines lookup path options s.host).1 with
      | error e => rfl
      | ok opened =>
        apply List.eq_nil_of_length_eq_zero
        show opened.descriptors.length = 0
        rw [opened.length_descriptors, hunmapped opened hresult]
        rfl
    rw [hnone] at hafter
    exact haccounts.held_eq hafter
  case mapped =>
    intro lookup path options opened hresult hmapped
    have hafter := (openLines_settles lookup path options s.host).accounts haccounts
    obtain ⟨d, hd⟩ : ∃ d, opened.descriptors = [d] := by
      apply List.length_eq_one_iff.1
      rw [opened.length_descriptors, hmapped]
      rfl
    rw [hresult] at hafter
    have hheld : (openLines lookup path options s.host).2.held.Perm ([d] ++ s.owned) :=
      hd ▸ hafter.held_perm
    refine ⟨d, hd, ?_, hheld.trans (haccounts.held_perm.symm.cons d)⟩
    intro hmem
    have howned := haccounts.held_perm.mem_iff.1 hmem
    have hnodup := (List.nodup_append.1 hafter.nodup).1
    exact (List.nodup_append.1 hnodup).2.2 d (by simp [Opened.descriptorsOf, hd]) d howned rfl
  case once =>
    intro d hd steps
    have hfollows := h.run steps
    have hissued : d < (s.run steps).2.host.issued := by
      have htaken := (haccounts.lt_issued_iff d).2 (Or.inl hd)
      exact Nat.lt_of_lt_of_le htaken hfollows.issued_le
    rw [hfollows.accounted.accounts.closed_count]
    by_cases howned : d ∈ (s.run steps).2.owned <;> simp [howned, hissued]
  case ended =>
    intro name opened hget d hd
    refine ⟨h.owns hget hd, ?_⟩
    intro action haction steps
    rw [step_on_end hget haction]
    have hlater := (h.dropName name).accounted.run steps
    have haccounts' := hlater.accounted.accounts
    have hclosed := hlater.closed_prefix.subset (h.mem_closed_dropName hget hd)
    constructor
    · intro howned
      exact haccounts'.notMem_closed howned hclosed
    · have hnodup := (List.nodup_append.1 haccounts'.nodup).2.1
      rw [hnodup.count, if_pos hclosed]

/-- **In every state that a session can reach the descriptors are in order.** -/
theorem run_start_descriptorsInOrder (tree : Tree) (configHome : Option Bytes) (steps : List Step) :
    DescriptorsInOrder ((start tree configHome).run steps).2 :=
  ((accounted_start tree configHome).run steps).accounted.descriptorsInOrder

end Session

end FileAccess
