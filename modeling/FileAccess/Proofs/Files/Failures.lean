/-
  FileAccess/Proofs/Files/Failures.lean
  =====================================
  **Which error a failed operation on a file gives.**

  An operation on a file can fail in these places: the path is refused before the system
  is asked, the system finds nothing under it and the policy says to tell, another call
  fails (`CallFails`), or no call fails and the file ends before it has delivered what was
  reported (`EndsShort`).  `Fails` lists these places with the error of each, in terms of
  what the system answers.  Reading whole and opening for lines go on from the open in the
  same way (`EndsAfterOpen`), and so they fail exactly there (`EndsAfterOpen.eq_error_iff`).

  The list tells the kinds of errors apart by what happened: misuse is a path that is
  empty or holds a NUL, a missing path is one of which the system says so, and every
  other error has the path as it was given and the number of the call that failed
  (`failures_tell`).  One number is left out, 22: an open that reports it counts as
  a rejected path.  The walk through a tree never reports it (`Tree.locate_reports`).
-/
import FileAccess.Background
import FileAccess.Proofs.Files.Outcomes

namespace FileAccess

open Bytes

/-! ### Calls that fail -/

/-- The system call that fails for a path, and the number it reports. -/
inductive CallFails (lookup : Lookup) (path : Bytes) (purpose : Purpose) : Activity → Errno → Prop
  where
  | opening {errno : Errno} (hreport : lookup.target path = .error errno) :
      CallFails lookup path purpose .opening errno
  | stating {target : Target} {errno : Errno} (hfound : lookup.target path = .ok target)
      (hstat : target.stat = .error errno) : CallFails lookup path purpose .stating errno
  | reading {target : Target} {report : Stat} {errno : Errno}
      (hfound : lookup.target path = .ok target) (hstat : target.stat = .ok report)
      (hread : ¬ purpose.maps report.size) (hshort : target.reading.bytes.length < report.size)
      (herror : target.reading.error? = some errno) :
      CallFails lookup path purpose .reading errno
  | mapping {target : Target} {report : Stat} {errno : Errno}
      (hfound : lookup.target path = .ok target) (hstat : target.stat = .ok report)
      (hmap : purpose.maps report.size) (hmapping : target.mapping = .error errno) :
      CallFails lookup path purpose .mapping errno

/-- No call fails, and the file ends before it has delivered the size that was reported. -/
inductive EndsShort (lookup : Lookup) (path : Bytes) (purpose : Purpose) : Nat → Prop where
  | intro {target : Target} {report : Stat} (hfound : lookup.target path = .ok target)
      (hstat : target.stat = .ok report) (hread : ¬ purpose.maps report.size)
      (hshort : target.reading.bytes.length < report.size)
      (hend : target.reading.error? = none) : EndsShort lookup path purpose report.size

/-- The errors of an operation on a path, each where it arises. -/
inductive Fails (lookup : Lookup) (path : Bytes) (policy : MissingPolicy) (purpose : Purpose) :
    Error → Prop where
  | noPath (hpath : path = []) : Fails lookup path policy purpose (.usage .noPath)
  | rejected (hpath : path ≠ []) (hnul : nul ∈ path) :
      Fails lookup path policy purpose (.usage (.rejectedPath path .nulInPath))
  | missing (hmissing : IsMissing lookup path) (hpolicy : policy = .raise) :
      Fails lookup path policy purpose (.notFound path (.system .noEntry))
  | call (hpath : path ≠ []) (hnul : nul ∉ path) {activity : Activity} {errno : Errno}
      (hother : activity = .opening → errno ≠ .noEntry)
      (hfails : CallFails lookup path purpose activity errno) :
      Fails lookup path policy purpose (.os path errno.code activity (.system errno))
  | short (hpath : path ≠ []) (hnul : nul ∉ path) {size : Nat}
      (hshort : EndsShort lookup path purpose size) :
      Fails lookup path policy purpose (.os path 0 (.shortRead size) .unfilled)

/-! ### The open -/

section Opening

variable {lookup : Lookup} {path : Bytes}

theorem Lookup.open?_of_nul_mem (hnul : nul ∈ path) : lookup.open? path = .error .nulInPath := by
  rw [Lookup.open?, if_pos (List.contains_iff_mem.2 hnul)]

theorem Lookup.open?_of_nul_notMem (hnul : nul ∉ path) :
    lookup.open? path = (lookup.target path).mapError .system := by
  rw [Lookup.open?, if_neg (mt List.contains_iff_mem.1 hnul)]

theorem Lookup.open?_eq_ok_iff {target : Target} :
    lookup.open? path = .ok target ↔ nul ∉ path ∧ lookup.target path = .ok target := by
  by_cases hnul : nul ∈ path
  · simp [Lookup.open?_of_nul_mem hnul, hnul]
  · rw [Lookup.open?_of_nul_notMem hnul, Except.mapError_eq_ok_iff]
    simp [hnul]

theorem Finds.of_target {target : Target} {report : Stat} (hpath : path ≠ []) (hnul : nul ∉ path)
    (hfound : lookup.target path = .ok target) (hstat : target.stat = .ok report) :
    Finds lookup path target report :=
  ⟨hpath, Lookup.open?_eq_ok_iff.2 ⟨hnul, hfound⟩, hstat⟩

theorem Finds.target_eq {target : Target} {report : Stat} (h : Finds lookup path target report) :
    nul ∉ path ∧ lookup.target path = .ok target :=
  Lookup.open?_eq_ok_iff.1 h.open_eq

theorem Error.ofOpen_noEntry (path : Bytes) (activity : Activity) :
    Error.ofOpen path activity (.system .noEntry) = .notFound path (.system .noEntry) :=
  rfl

theorem Error.ofOpen_system {errno : Errno} (hentry : errno ≠ .noEntry)
    (hargument : errno ≠ .invalidArgument) (path : Bytes) (activity : Activity) :
    Error.ofOpen path activity (.system errno) =
      .os path errno.code activity (.system errno) := by
  simp [ofOpen, ofSystem, IoError.isNotFound, IoError.isInvalidInput, IoError.errno?, hentry,
    hargument]

theorem OpenFile.acquire_of_report {errno : Errno} (hpath : path ≠ []) (hnul : nul ∉ path)
    (hreport : lookup.target path = .error errno) (host : Host) :
    acquire lookup path host = (.error (.ofOpen path .opening (.system errno)), host) := by
  apply acquire_refused hpath
  rw [Lookup.open?_of_nul_notMem hnul, hreport]
  rfl

/-- The ends of an open that an operation has to do with: an error that no policy speaks
    of, a missing path, or something that was found. -/
theorem OpenFile.acquire_ends (hargument : lookup.target path ≠ .error .invalidArgument) :
    (∃ e, e.isNotFound = false ∧ (∀ host, (acquire lookup path host).1 = .error e) ∧
      ∀ policy purpose, Fails lookup path policy purpose e) ∨
    (IsMissing lookup path ∧
      ∀ host, (acquire lookup path host).1 = .error (.notFound path (.system .noEntry))) ∨
    ∃ target report, Finds lookup path target report := by
  by_cases hpath : path = []
  · left
    subst hpath
    exact ⟨.usage .noPath, rfl, fun _ => rfl, fun _ _ => .noPath rfl⟩
  · by_cases hnul : nul ∈ path
    · left
      refine ⟨_, rfl, fun host => ?_, fun _ _ => .rejected hpath hnul⟩
      rw [acquire_refused hpath (Lookup.open?_of_nul_mem hnul)]
      rfl
    · cases hreport : lookup.target path with
      | error errno =>
        have hacquire := acquire_of_report hpath hnul hreport
        by_cases hentry : errno = .noEntry
        · subst hentry
          rw [Error.ofOpen_noEntry] at hacquire
          exact Or.inr (Or.inl ⟨⟨hpath, hnul, hreport⟩, fun host => congrArg Prod.fst (hacquire host)⟩)
        · have hvalid : errno ≠ .invalidArgument := by
            rintro rfl
            exact hargument hreport
          rw [Error.ofOpen_system hentry hvalid] at hacquire
          exact Or.inl ⟨_, rfl, fun host => congrArg Prod.fst (hacquire host),
            fun _ _ => .call hpath hnul (fun _ => hentry) (.opening hreport)⟩
      | ok target =>
        have hopen : lookup.open? path = .ok target := Lookup.open?_eq_ok_iff.2 ⟨hnul, hreport⟩
        cases hstat : target.stat with
        | error errno =>
          have hacquire := acquire_unreported hpath hopen hstat
          exact Or.inl ⟨_, rfl, fun host => congrArg Prod.fst (hacquire host),
            fun _ _ => .call hpath hnul nofun (.stating hreport hstat)⟩
        | ok report =>
          exact Or.inr (Or.inr ⟨target, report, .of_target hpath hnul hreport hstat⟩)

end Opening

/-! ### Where an operation fails -/

section Operations

variable {lookup : Lookup} {path : Bytes} {policy : MissingPolicy} {purpose : Purpose} {e : Error}
  {target : Target} {report : Stat}

/-- What cannot be fetched fails in one of the places listed. -/
theorem Fails.of_fetch (hfinds : Finds lookup path target report)
    (hfetch : purpose.fetch path target report.size = .error e) :
    Fails lookup path policy purpose e := by
  obtain ⟨hnul, hfound⟩ := hfinds.target_eq
  by_cases hmaps : purpose.maps report.size
  · rw [Purpose.fetch_of_maps hmaps, Except.mapError_eq_error_iff] at hfetch
    obtain ⟨errno, hmapping, rfl⟩ := hfetch
    exact .call hfinds.path_ne_nil hnul nofun (.mapping hfound hfinds.stat_eq hmaps hmapping)
  · rw [Purpose.fetch_of_not_maps hmaps, Except.mapError_eq_error_iff] at hfetch
    obtain ⟨source, hread, rfl⟩ := hfetch
    obtain ⟨hshort, ⟨hend, rfl⟩ | ⟨errno, herror, rfl⟩⟩ := Reading.exactly_eq_error_iff.1 hread
    · exact .short hfinds.path_ne_nil hnul (.intro hfound hfinds.stat_eq hmaps hshort hend)
    · exact .call hfinds.path_ne_nil hnul nofun
        (.reading hfound hfinds.stat_eq hmaps hshort herror)

/-- An error is that of the open, which the policy lets through, or that of a fetch. -/
theorem Fails.of_open_or_fetch (hargument : lookup.target path ≠ .error .invalidArgument)
    (h : Fails lookup path policy purpose e) :
    ((∀ host, (OpenFile.acquire lookup path host).1 = .error e) ∧
      (e.isNotFound = true → policy = .raise)) ∨
    ∃ target report, Finds lookup path target report ∧
      purpose.fetch path target report.size = .error e := by
  cases h with
  | noPath hpath =>
    left
    subst hpath
    exact ⟨fun _ => rfl, nofun⟩
  | rejected hpath hnul =>
    left
    refine ⟨fun host => ?_, nofun⟩
    rw [OpenFile.acquire_refused hpath (Lookup.open?_of_nul_mem hnul)]
    rfl
  | missing hmissing hpolicy =>
    left
    obtain ⟨hpath, hnul, hreport⟩ := hmissing
    refine ⟨fun host => ?_, fun _ => hpolicy⟩
    rw [OpenFile.acquire_of_report hpath hnul hreport, Error.ofOpen_noEntry]
  | @call hpath hnul activity errno hother hfails =>
    cases hfails with
    | opening hreport =>
      left
      have hvalid : errno ≠ .invalidArgument := by
        rintro rfl
        exact hargument hreport
      refine ⟨fun host => ?_, nofun⟩
      rw [OpenFile.acquire_of_report hpath hnul hreport, Error.ofOpen_system (hother rfl) hvalid]
    | stating hfound hstat =>
      left
      refine ⟨fun host => ?_, nofun⟩
      rw [OpenFile.acquire_unreported hpath (Lookup.open?_eq_ok_iff.2 ⟨hnul, hfound⟩) hstat]
    | reading hfound hstat hread hshort herror =>
      right
      have hexactly := Reading.exactly_eq_error_iff.2 ⟨hshort, Or.inr ⟨_, herror, rfl⟩⟩
      exact ⟨_, _, .of_target hpath hnul hfound hstat,
        Purpose.fetch_of_exactly_eq_error hread hexactly⟩
    | mapping hfound hstat hmap hmapping =>
      right
      exact ⟨_, _, .of_target hpath hnul hfound hstat,
        Purpose.fetch_of_mapping_eq_error hmap hmapping⟩
  | short hpath hnul hshort =>
    right
    obtain ⟨hfound, hstat, hread, hlt, hend⟩ := hshort
    have hexactly := Reading.exactly_eq_error_iff.2 ⟨hlt, Or.inl ⟨hend, rfl⟩⟩
    exact ⟨_, _, .of_target hpath hnul hfound hstat,
      Purpose.fetch_of_exactly_eq_error hread hexactly⟩

/-- How an operation ends where its open has ended: with the error of the open, unless the
    policy has another answer to it, and with what is fetched from what was found. -/
structure EndsAfterOpen {α : Type} (lookup : Lookup) (path : Bytes) (policy : MissingPolicy)
    (purpose : Purpose) (host : Host) (result : Except Error α) : Prop where
  refused : ∀ e, (OpenFile.acquire lookup path host).1 = .error e →
    (e.isNotFound = true → policy = .raise) → result = .error e
  settled : ∀ e, (OpenFile.acquire lookup path host).1 = .error e → e.isNotFound = true →
    policy ≠ .raise → ∃ a, result = .ok a
  found : ∀ target report, Finds lookup path target report → ∀ e,
    result = .error e ↔ purpose.fetch path target report.size = .error e

theorem EndsAfterOpen.eq_error_iff {α : Type} {host : Host} {result : Except Error α}
    (h : EndsAfterOpen lookup path policy purpose host result)
    (hargument : lookup.target path ≠ .error .invalidArgument) :
    result = .error e ↔ Fails lookup path policy purpose e := by
  constructor
  · intro hresult
    rcases OpenFile.acquire_ends hargument with
      ⟨e', hother, hacquire, hfails⟩ | ⟨hmissing, hacquire⟩ | ⟨target, report, hfinds⟩
    · have hrefused := h.refused e' (hacquire host) (by simp [hother])
      obtain rfl : e = e' := Except.error.inj (hresult.symm.trans hrefused)
      exact hfails policy purpose
    · by_cases hpolicy : policy = .raise
      · have hrefused := h.refused _ (hacquire host) fun _ => hpolicy
        obtain rfl := Except.error.inj (hresult.symm.trans hrefused)
        exact .missing hmissing hpolicy
      · obtain ⟨a, hok⟩ := h.settled _ (hacquire host) rfl hpolicy
        cases hok.symm.trans hresult
    · exact .of_fetch hfinds ((h.found target report hfinds e).1 hresult)
  · intro hfails
    rcases hfails.of_open_or_fetch hargument with
      ⟨hacquire, hraise⟩ | ⟨target, report, hfinds, hfetch⟩
    · exact h.refused e (hacquire host) hraise
    · exact (h.found target report hfinds e).2 hfetch

theorem readWhole_endsAfterOpen (lookup : Lookup) (path : Bytes) (policy : MissingPolicy)
    (host : Host) :
    EndsAfterOpen lookup path policy .whole host (readWhole lookup path policy host).1 := by
  constructor
  case refused =>
    intro e he hraise
    cases hmissing : e.isNotFound with
    | false => rw [readWhole_refused he hmissing]
    | true => rw [readWhole_missing he hmissing, hraise hmissing]
  case settled =>
    intro e he hmissing hpolicy
    rw [readWhole_missing he hmissing]
    cases policy with
    | raise => exact absurd rfl hpolicy
    | empty => exact ⟨_, rfl⟩
    | absent => exact ⟨_, rfl⟩
  case found =>
    intro target report hfinds e
    rw [readWhole_found hfinds]
    cases Purpose.whole.fetch path target report.size <;> simp [Except.map]

theorem openLines_endsAfterOpen (lookup : Lookup) (path : Bytes) (options : LineOptions)
    (host : Host) :
    EndsAfterOpen lookup path options.missing (.lines options.threshold) host
      (openLines lookup path options host).1 := by
  constructor
  case refused =>
    intro e he hraise
    cases hmissing : e.isNotFound with
    | false => rw [openLines_refused he hmissing]
    | true => rw [openLines_missing he hmissing, hraise hmissing]
  case settled =>
    intro e he hmissing hpolicy
    rw [openLines_missing he hmissing]
    cases hoption : options.missing with
    | raise => exact absurd hoption hpolicy
    | empty => exact ⟨_, rfl⟩
    | absent => exact ⟨_, rfl⟩
  case found =>
    intro target report hfinds e
    cases hfetch : (Purpose.lines options.threshold).fetch path target report.size with
    | error e' =>
      rw [openLines_failed hfinds hfetch]
      simp
    | ok content =>
      obtain ⟨store, _, hlines, _⟩ := exists_openLines_eq_of_fetch hfinds hfetch host
      rw [hlines]
      simp

end Operations

/-! ### Lookups in a tree -/

namespace Tree

/-- The numbers that the walk through a tree can report. -/
def reports : List Errno :=
  [.noEntry, .notDirectory, .nameTooLong, .tooManyLinks]

theorem advance_reports {root : Node} {place : Location} {segments : List Bytes} {errno : Errno}
    (h : advance root place segments = .error errno) : errno ∈ reports := by
  induction segments generalizing place with
  | nil => cases h
  | cons segment remaining ih =>
    unfold advance at h
    split at h
    · split at h
      · exact ih h
      · split at h
        · exact ih h
        · split at h
          · cases h
            simp [reports]
          · split at h
            · cases h
              simp [reports]
            · cases h
            · exact ih h
    · cases h
      simp [reports]

theorem walk_reports {root : Node} {links : Nat} {place : Location} {segments : List Bytes}
    {errno : Errno} (h : walk root links place segments = .error errno) : errno ∈ reports := by
  induction links generalizing place segments with
  | zero =>
    unfold walk at h
    split at h
    · rename_i hadvance
      cases h
      exact advance_reports hadvance
    · cases h
    · cases h
      simp [reports]
  | succ links ih =>
    unfold walk at h
    split at h
    · rename_i hadvance
      cases h
      exact advance_reports hadvance
    · cases h
    · exact ih h

theorem locate_reports {tree : Tree} {path : Bytes} {errno : Errno}
    (h : tree.locate path = .error errno) : errno ∈ reports := by
  unfold locate at h
  split at h
  · cases h
    simp [reports]
  · split at h
    · cases h
      simp [reports]
    · exact walk_reports h

theorem find_kind (tree : Tree) (path : Bytes) :
    tree.find.kind path = (tree.node? path).map Node.kind :=
  rfl

theorem find_target (tree : Tree) (path : Bytes) :
    tree.find.target path = (tree.node? path).bind Node.opening :=
  rfl

/-- An open under a path reports what the walk there does, or what the thing there does. -/
theorem target_eq_error {tree : Tree} {path : Bytes} {errno : Errno}
    (h : tree.find.target path = .error errno) :
    errno ∈ reports ∨ ∃ node, tree.node? path = .ok node ∧ node.opening = .error errno := by
  rw [find_target] at h
  cases hnode : tree.node? path with
  | ok node =>
    rw [hnode] at h
    exact Or.inr ⟨node, rfl, h⟩
  | error errno' =>
    left
    obtain rfl : errno' = errno := by
      rw [hnode] at h
      cases h
      rfl
    unfold node? at hnode
    split at hnode
    · rename_i hlocate
      cases hnode
      exact locate_reports hlocate
    · split at hnode
      · cases hnode
        simp [reports]
      · cases hnode

end Tree

/-! ### Kinds of errors -/

/-- An operation on this thread, or on a thread of its own. -/
def Access.onThread {α : Type} (inBackground : Bool) (operation : Access α) : Access α :=
  if inBackground then operation.inBackground else operation

theorem Access.onThread_apply {α : Type} (inBackground : Bool) (operation : Access α)
    (host : Host) : onThread inBackground operation host = operation host := by
  cases inBackground <;> rfl

/-- What the failures of an operation on a path tell. -/
structure FailuresTell {α : Type} (lookup : Lookup) (path : Bytes) (policy : MissingPolicy)
    (purpose : Purpose) (result : Except Error α) : Prop where
  /-- There is an error when the path is refused, when it is missing and the policy says to
      tell, when any other call fails, and when the file ends short, and only then. -/
  fails_iff : (∃ e, result = .error e) ↔
    (path = [] ∨ nul ∈ path) ∨ (IsMissing lookup path ∧ policy = .raise) ∨
      (∃ activity errno, (activity = .opening → errno ≠ .noEntry) ∧
        CallFails lookup path purpose activity errno) ∨
      ∃ size, EndsShort lookup path purpose size
  /-- It is misuse exactly for a path that is empty or holds a NUL. -/
  usage_iff : ∀ e, result = .error e → ((∃ cause, e = .usage cause) ↔ path = [] ∨ nul ∈ path)
  /-- It is that of a missing path exactly where the system, asked for the path, says that
      there is no such entry, -/
  notFound_iff : ∀ e, result = .error e → (e.isNotFound = true ↔ IsMissing lookup path)
  /-- and then the policy says to tell, and the error has the path and the number 2. -/
  missing : ∀ e, result = .error e → e.isNotFound = true →
    policy = .raise ∧ e.path? = some path ∧ e.osCode? = some 2
  /-- In every other case it has the path as it was given, and the number of the call that
      failed; -/
  other : ∀ e, result = .error e → (path ≠ [] ∧ nul ∉ path) → ¬ IsMissing lookup path →
    (∀ size, ¬ EndsShort lookup path purpose size) →
    ∃ activity errno source, CallFails lookup path purpose activity errno ∧
      e = .os path errno.code activity source ∧ e.path? = some path ∧
      e.osCode? = some errno.code
  /-- but where the file ends short no call has failed, and the number is 0. -/
  short : ∀ e, result = .error e → (path ≠ [] ∧ nul ∉ path) → ∀ size,
    EndsShort lookup path purpose size →
    (∃ source, e = .os path 0 (.shortRead size) source) ∧ e.path? = some path
  /-- It never speaks of settings or of a lost thread. -/
  never : ∀ e, result = .error e → (∀ cause, e ≠ .settings cause) ∧ ∀ text, e ≠ .task text

section Kinds

variable {lookup : Lookup} {path : Bytes} {purpose : Purpose}

/-- Only an open can fail of a path that is missing. -/
theorem IsMissing.opening_of_callFails {activity : Activity} {errno : Errno}
    (h : IsMissing lookup path) (hfails : CallFails lookup path purpose activity errno) :
    activity = .opening ∧ errno = .noEntry := by
  have hreport := h.2.2
  cases hfails with
  | opening hreport' => exact ⟨rfl, Except.error.inj (hreport'.symm.trans hreport)⟩
  | stating hfound => cases hfound.symm.trans hreport
  | reading hfound => cases hfound.symm.trans hreport
  | mapping hfound => cases hfound.symm.trans hreport

theorem EndsShort.not_isMissing {size : Nat} (h : EndsShort lookup path purpose size) :
    ¬ IsMissing lookup path := by
  rintro ⟨_, _, hreport⟩
  obtain ⟨hfound⟩ := h
  cases hfound.symm.trans hreport

/-- A file that ends short is opened and reported on, and no call on it fails. -/
theorem EndsShort.not_callFails {size : Nat} (h : EndsShort lookup path purpose size)
    (activity : Activity) (errno : Errno) : ¬ CallFails lookup path purpose activity errno := by
  obtain ⟨hfound, hstat, hread, _, hend⟩ := h
  intro hfails
  cases hfails with
  | opening hreport => cases hfound.symm.trans hreport
  | stating hfound' hstat' =>
    cases hfound.symm.trans hfound'
    cases hstat.symm.trans hstat'
  | reading hfound' hstat' _ _ herror =>
    cases hfound.symm.trans hfound'
    cases hend.symm.trans herror
  | mapping hfound' hstat' hmap _ =>
    cases hfound.symm.trans hfound'
    cases hstat.symm.trans hstat'
    exact hread hmap

theorem EndsShort.unique {size size' : Nat} (h : EndsShort lookup path purpose size)
    (h' : EndsShort lookup path purpose size') : size' = size := by
  obtain ⟨hfound, hstat⟩ := h
  obtain ⟨hfound', hstat'⟩ := h'
  cases hfound.symm.trans hfound'
  cases hstat.symm.trans hstat'
  rfl

end Kinds

theorem FailuresTell.of_eq_error_iff {α : Type} {lookup : Lookup} {path : Bytes}
    {policy : MissingPolicy} {purpose : Purpose} {result : Except Error α}
    (h : ∀ e, result = .error e ↔ Fails lookup path policy purpose e) :
    FailuresTell lookup path policy purpose result := by
  constructor
  case fails_iff =>
    constructor
    · rintro ⟨e, he⟩
      cases (h e).1 he with
      | noPath hpath => exact Or.inl (Or.inl hpath)
      | rejected hpath hnul => exact Or.inl (Or.inr hnul)
      | missing hmissing hpolicy => exact Or.inr (Or.inl ⟨hmissing, hpolicy⟩)
      | call hpath hnul hother hfails => exact Or.inr (Or.inr (Or.inl ⟨_, _, hother, hfails⟩))
      | short hpath hnul hshort => exact Or.inr (Or.inr (Or.inr ⟨_, hshort⟩))
    · intro hcase
      by_cases hpath : path = []
      · exact ⟨_, (h _).2 (.noPath hpath)⟩
      · by_cases hnul : nul ∈ path
        · exact ⟨_, (h _).2 (.rejected hpath hnul)⟩
        · rcases hcase with (hempty | hmem) | ⟨hmissing, hpolicy⟩ |
            ⟨activity, errno, hother, hfails⟩ | ⟨size, hshort⟩
          · exact absurd hempty hpath
          · exact absurd hmem hnul
          · exact ⟨_, (h _).2 (.missing hmissing hpolicy)⟩
          · exact ⟨_, (h _).2 (.call hpath hnul hother hfails)⟩
          · exact ⟨_, (h _).2 (.short hpath hnul hshort)⟩
  case usage_iff =>
    intro e he
    cases (h e).1 he with
    | noPath hpath => simp [hpath]
    | rejected hpath hnul => simp [hnul]
    | missing hmissing hpolicy => simp [hmissing.1, hmissing.2.1]
    | call hpath hnul hother hfails => simp [hpath, hnul]
    | short hpath hnul hshort => simp [hpath, hnul]
  case notFound_iff =>
    intro e he
    cases (h e).1 he with
    | noPath hpath => simp [IsMissing, Error.isNotFound, hpath]
    | rejected hpath hnul => simp [IsMissing, Error.isNotFound, hnul]
    | missing hmissing hpolicy => simp [Error.isNotFound, hmissing]
    | call hpath hnul hother hfails =>
      have hfound : ¬ IsMissing lookup path := by
        intro hmissing
        obtain ⟨hopening, hentry⟩ := hmissing.opening_of_callFails hfails
        exact hother hopening hentry
      simp [Error.isNotFound, hfound]
    | short hpath hnul hshort => simp [Error.isNotFound, hshort.not_isMissing]
  case missing =>
    intro e he hmissing
    cases (h e).1 he with
    | missing _ hpolicy => exact ⟨hpolicy, rfl, rfl⟩
    | noPath hpath => cases hmissing
    | rejected hpath hnul => cases hmissing
    | call hpath hnul hother hfails => cases hmissing
    | short hpath hnul hshort => cases hmissing
  case other =>
    rintro e he ⟨hpath, hfree⟩ hfound hlong
    cases (h e).1 he with
    | noPath hempty => exact absurd hempty hpath
    | rejected _ hnul => exact absurd hnul hfree
    | missing hmissing hpolicy => exact absurd hmissing hfound
    | call _ _ hother hfails => exact ⟨_, _, _, hfails, rfl, rfl, rfl⟩
    | short _ _ hshort => exact absurd hshort (hlong _)
  case short =>
    rintro e he ⟨hpath, hfree⟩ size hshort
    cases (h e).1 he with
    | noPath hempty => exact absurd hempty hpath
    | rejected _ hnul => exact absurd hnul hfree
    | missing hmissing hpolicy => exact absurd hmissing hshort.not_isMissing
    | call _ _ hother hfails => exact absurd hfails (hshort.not_callFails _ _)
    | short _ _ hshort' =>
      obtain rfl := hshort'.unique hshort
      exact ⟨⟨_, rfl⟩, rfl⟩
  case never =>
    intro e he
    cases (h e).1 he <;> simp

/-- **Every failure tells what happened**, whether a file is read whole or opened for its
    lines, on this thread or on another. -/
theorem failures_tell {lookup : Lookup} {path : Bytes}
    (hargument : lookup.target path ≠ .error .invalidArgument) (inBackground : Bool)
    (host : Host) :
    (∀ policy, FailuresTell lookup path policy .whole
      (Access.onThread inBackground (readWhole lookup path policy) host).1) ∧
    ∀ options : LineOptions, FailuresTell lookup path options.missing (.lines options.threshold)
      (Access.onThread inBackground (openLines lookup path options) host).1 := by
  constructor
  · intro policy
    rw [Access.onThread_apply]
    apply FailuresTell.of_eq_error_iff
    intro e
    exact (readWhole_endsAfterOpen lookup path policy host).eq_error_iff hargument
  · intro options
    rw [Access.onThread_apply]
    apply FailuresTell.of_eq_error_iff
    intro e
    exact (openLines_endsAfterOpen lookup path options host).eq_error_iff hargument

theorem failures_tell_mappedDirectory :
    ∃ tree : Tree, tree.find.target [0x64] ≠ .error .invalidArgument ∧
      FailuresTell tree.find [0x64] .empty (.lines 0)
        (Access.onThread true (openLines tree.find [0x64] ⟨true, .empty, ⟨0⟩, 0⟩) {}).1 ∧
      (Access.onThread true (openLines tree.find [0x64] ⟨true, .empty, ⟨0⟩, 0⟩) {}).1 =
        .error (.os [0x64] 19 .mapping (.system .noDevice)) := by
  have hargument : (Tree.find ⟨.directory [([0x64], .emptyDirectory)], []⟩).target [0x64] ≠
      .error .invalidArgument := by
    nofun
  exact ⟨_, hargument, (failures_tell hargument true {}).2 ⟨true, .empty, ⟨0⟩, 0⟩, rfl⟩

/-- A file that is reported with a page and delivers a line, as those do that the system
    writes when they are read. -/
def Tree.shortFile : Tree where
  root := .directory [([0x66], .special true (.ok
    { stat := .ok ⟨4096, .ofSeconds 0⟩
      reading := ⟨[0x31, 0x0a], none⟩
      mapping := .error .noDevice
      length_mapping := nofun }))]
  current := []

/-- An error with a number need not come from a call: reading this file fails, and no call
    on it does. -/
theorem failures_tell_shortFile :
    Tree.shortFile.find.target [0x66] ≠ .error .invalidArgument ∧
      ¬ IsMissing Tree.shortFile.find [0x66] ∧
      (readWhole Tree.shortFile.find [0x66] .raise {}).1 =
        .error (.os [0x66] 0 (.shortRead 4096) .unfilled) ∧
      ∀ activity errno, ¬ CallFails Tree.shortFile.find [0x66] .whole activity errno := by
  obtain ⟨target, hfound, hstat, hreading⟩ : ∃ target : Target,
      Tree.shortFile.find.target [0x66] = .ok target ∧
        target.stat = .ok ⟨4096, .ofSeconds 0⟩ ∧ target.reading = ⟨[0x31, 0x0a], none⟩ :=
    ⟨_, rfl, rfl, rfl⟩
  have hshort : EndsShort Tree.shortFile.find [0x66] .whole 4096 :=
    .intro hfound hstat not_false (by rw [hreading]; decide) (by rw [hreading])
  exact ⟨nofun, hshort.not_isMissing, rfl, hshort.not_callFails⟩

end FileAccess
