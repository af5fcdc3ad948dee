/-
  FileAccess/Proofs/Tree/Walk.lean
  ================================
  **Where a path leads, its normal form leads too, on a tree without links.**

  A walk without links takes one segment after the other, and every segment must be
  allowed where it is taken (`Allows`): there must be a directory, and in it what a name
  stands for.  It ends where the segments lead from its start, whatever the tree.

  While a path is walked, the segments that its normal form keeps so far can be walked
  from the same start, and they lead to where the walk stands (`advance_keep`).  A name is
  kept where it was found; `..` takes a name back, which leads to the directory in which
  that name was found, or is kept and climbs.  So the normal form of a path that can be
  walked is allowed all the way (`locate_normalize`).  The converse fails: a path can
  be refused where its normal form is not, as `x/..` is where there is no `x`.
-/
import FileAccess.Proofs.Files.Failures
import FileAccess.Proofs.Path.Size

namespace FileAccess

open Bytes

namespace Tree

open FileAccess.Path (Layers IsName follow keep kept normalize segments)

theorem at?_concat (node : Node) (place : Location) (name : Bytes) :
    node.at? (place ++ [name]) = (node.at? place).bind (·.child? name) := by
  induction place generalizing node with
  | nil =>
    simp only [List.nil_append, Node.at?, Option.bind_some]
    cases node.child? name <;> rfl
  | cons first place ih =>
    simp only [List.cons_append, Node.at?]
    cases node.child? first with
    | none => rfl
    | some child => exact ih child

/-- There is no symbolic link anywhere below a node. -/
def LinkFree (root : Node) : Prop :=
  ∀ place target, root.at? place ≠ some (.link target)

theorem linkFree_file (content : Bytes) (mtime : Timestamp) : LinkFree (.file content mtime) := by
  intro place target h
  cases place with
  | nil => cases h
  | cons name place => cases h

theorem linkFree_directory {entries : List (Bytes × Node)} {opening : Except Errno Target}
    (h : ∀ entry ∈ entries, LinkFree entry.2) : LinkFree (.directory entries opening) := by
  intro place target hlink
  cases place with
  | nil => cases hlink
  | cons name place =>
    rw [Node.at?] at hlink
    cases hchild : (Node.directory entries opening).child? name with
    | none =>
      rw [hchild] at hlink
      cases hlink
    | some child =>
      rw [hchild] at hlink
      obtain ⟨before, after, hentries, _⟩ := List.lookup_eq_some_iff.1 hchild
      have hmem : (name, child) ∈ (Node.directory entries opening).entries := by
        rw [hentries]
        exact List.mem_append_right before (List.mem_cons_self ..)
      exact h (name, child) hmem place target hlink

/-! ### One segment -/

/-- A walk may take a segment at a place: there is a directory, and a name that is not
    too long stands for something in it that is no link. -/
inductive Allows (root : Node) (place : Location) : Bytes → Prop where
  | stay {segment : Bytes} {entries : List (Bytes × Node)} {opening : Except Errno Target}
      (hplace : root.at? place = some (.directory entries opening))
      (hsegment : segment = [] ∨ segment = [dot]) : Allows root place segment
  | up {entries : List (Bytes × Node)} {opening : Except Errno Target}
      (hplace : root.at? place = some (.directory entries opening)) :
      Allows root place [dot, dot]
  | down {name : Bytes} {entries : List (Bytes × Node)} {opening : Except Errno Target}
      {node : Node}
      (hplace : root.at? place = some (.directory entries opening))
      (hstay : ¬ (name = [] ∨ name = [dot])) (hup : name ≠ [dot, dot])
      (hlength : name.length ≤ nameLimit) (hentry : entries.lookup name = some node)
      (hnode : ∀ target, node ≠ .link target) : Allows root place name

variable {root : Node} {start place place' : Location} {segment : Bytes}

theorem Allows.exists_directory (h : Allows root place segment) :
    ∃ entries opening, root.at? place = some (.directory entries opening) := by
  cases h with
  | stay hplace _ => exact ⟨_, _, hplace⟩
  | up hplace => exact ⟨_, _, hplace⟩
  | down hplace _ _ _ _ _ => exact ⟨_, _, hplace⟩

theorem advance_cons_of_allows (h : Allows root place segment) (remaining : List Bytes) :
    advance root place (segment :: remaining) = advance root (follow place segment) remaining := by
  cases h with
  | stay hplace hsegment =>
    rw [advance, hplace]
    simp only [follow, if_pos hsegment]
  | up hplace =>
    rw [advance, hplace]
    rfl
  | down hplace hstay hup hlength hentry hnode =>
    rw [advance, hplace]
    simp only [follow, if_neg hstay, if_neg hup, if_neg (Nat.not_lt.2 hlength), hentry]

theorem allows_of_advance_cons {remaining : List Bytes}
    (h : advance root place (segment :: remaining) = .ok (.reached place')) :
    Allows root place segment := by
  rw [advance] at h
  split at h
  · rename_i entries opening hplace
    by_cases hstay : segment = [] ∨ segment = [dot]
    · exact .stay hplace hstay
    · rw [if_neg hstay] at h
      by_cases hup : segment = [dot, dot]
      · rw [hup]
        exact .up hplace
      · rw [if_neg hup] at h
        by_cases hlength : segment.length > nameLimit
        · rw [if_pos hlength] at h
          cases h
        · rw [if_neg hlength] at h
          split at h
          · cases h
          · cases h
          · rename_i node hnode hentry
            exact .down hplace hstay hup (Nat.not_lt.1 hlength) hentry
              (fun target heq => hnode target heq)
  · cases h

theorem advance_cons_eq_reached_iff {remaining : List Bytes} :
    advance root place (segment :: remaining) = .ok (.reached place') ↔
      Allows root place segment ∧
        advance root (follow place segment) remaining = .ok (.reached place') := by
  constructor
  · intro h
    have hallows := allows_of_advance_cons h
    rw [advance_cons_of_allows hallows] at h
    exact ⟨hallows, h⟩
  · rintro ⟨hallows, h⟩
    rw [advance_cons_of_allows hallows, h]

/-! ### Many segments -/

theorem advance_nil_eq_reached_iff :
    advance root place [] = .ok (.reached place') ↔ place = place' := by
  simp [advance]

/-- A walk along two runs of segments walks the first, then the second from there. -/
theorem advance_append_eq_reached_iff {first second : List Bytes} :
    advance root place (first ++ second) = .ok (.reached place') ↔
      ∃ middle, advance root place first = .ok (.reached middle) ∧
        advance root middle second = .ok (.reached place') := by
  induction first generalizing place with
  | nil =>
    simp only [List.nil_append, advance_nil_eq_reached_iff]
    constructor
    · intro h
      exact ⟨place, rfl, h⟩
    · rintro ⟨_, rfl, h⟩
      exact h
  | cons segment first ih =>
    rw [List.cons_append, advance_cons_eq_reached_iff, ih]
    simp only [advance_cons_eq_reached_iff]
    constructor
    · rintro ⟨hallows, middle, hfirst, hsecond⟩
      exact ⟨middle, ⟨hallows, hfirst⟩, hsecond⟩
    · rintro ⟨middle, ⟨hallows, hfirst⟩, hsecond⟩
      exact ⟨hallows, middle, hfirst, hsecond⟩

/-- A walk goes on with a segment that is allowed where it stands. -/
theorem advance_concat {walked : List Bytes}
    (hwalk : advance root start walked = .ok (.reached place))
    (hallows : Allows root place segment) :
    advance root start (walked ++ [segment]) = .ok (.reached (follow place segment)) :=
  advance_append_eq_reached_iff.2
    ⟨place, hwalk, advance_cons_eq_reached_iff.2 ⟨hallows, advance_nil_eq_reached_iff.2 rfl⟩⟩

theorem advance_of_concat {walked : List Bytes}
    (h : advance root start (walked ++ [segment]) = .ok (.reached place)) :
    ∃ middle, advance root start walked = .ok (.reached middle) ∧
      follow middle segment = place := by
  obtain ⟨middle, hwalk, hlast⟩ := advance_append_eq_reached_iff.1 h
  exact ⟨middle, hwalk, advance_nil_eq_reached_iff.1 (advance_cons_eq_reached_iff.1 hlast).2⟩

/-! ### The segments kept so far -/

section Kept

variable {absolute : Bool} {climbs : Nat} {above stack : List Bytes}

/-- **What one segment keeps.**  If the segments on the stack lead to where the walk
    stands, then they do after a segment that the tree allows there. -/
theorem advance_keep (hlayers : Layers absolute climbs above stack)
    (hroot : absolute = true → start = [])
    (hwalk : advance root start stack.reverse = .ok (.reached place))
    (hallows : Allows root place segment) (hsegment : IsName segment ∨ segment = [dot, dot]) :
    advance root start (keep absolute stack segment).reverse =
      .ok (.reached (follow place segment)) := by
  rcases hsegment with hname | rfl
  · rw [hname.keep_eq, List.reverse_cons]
    exact advance_concat hwalk hallows
  · cases above with
    | cons name above =>
      -- the walk came to this place by the name on top, so one level up is where it was before
      have hname : IsName name := hlayers.isName name (List.mem_cons_self ..)
      rw [hlayers.stack_eq_cons, List.reverse_cons] at hwalk
      obtain ⟨middle, hmiddle, hplace⟩ := advance_of_concat hwalk
      rw [hname.follow_eq] at hplace
      rw [hmiddle, Path.follow_dotDot, ← hplace, List.dropLast_concat]
    | nil =>
      cases absolute with
      | true =>
        have hstack : stack = [] := by
          rw [hlayers.stack_eq, hlayers.climbs_eq rfl]
          rfl
        subst hstack
        have hplace : start = place := advance_nil_eq_reached_iff.1 hwalk
        rw [hlayers.keep_dotDot_root, hwalk, ← hplace, hroot rfl]
        rfl
      | false =>
        rw [hlayers.keep_dotDot_climb.1, List.reverse_cons]
        exact advance_concat hwalk hallows

/-- **What a walk keeps.**  Where a walk gets to, the stack of the segments walked leads
    from its start. -/
theorem advance_foldl_keep (hlayers : Layers absolute climbs above stack)
    (hroot : absolute = true → start = [])
    (hwalk : advance root start stack.reverse = .ok (.reached place)) {remaining : List Bytes}
    (hfree : ∀ segment ∈ remaining, slash ∉ segment)
    (h : advance root place remaining = .ok (.reached place')) :
    advance root start
        ((remaining.filter fun s => s != [] && s != [dot]).foldl (keep absolute) stack).reverse =
      .ok (.reached place') := by
  induction remaining generalizing place climbs above stack with
  | nil =>
    obtain rfl := advance_nil_eq_reached_iff.1 h
    exact hwalk
  | cons segment remaining ih =>
    obtain ⟨hallows, hrest⟩ := advance_cons_eq_reached_iff.1 h
    have hothers : ∀ other ∈ remaining, slash ∉ other := by
      intro other hother
      exact hfree other (List.mem_cons_of_mem segment hother)
    by_cases hstay : segment = [] ∨ segment = [dot]
    · rw [follow, if_pos hstay] at hrest
      rw [List.filter_cons_of_neg (by rcases hstay with rfl | rfl <;> decide)]
      exact ih hlayers hwalk hothers hrest
    · obtain ⟨hnil, hdot⟩ := not_or.1 hstay
      have hsegment : IsName segment ∨ segment = [dot, dot] := by
        by_cases hup : segment = [dot, dot]
        · exact Or.inr hup
        · exact Or.inl ⟨hnil, hdot, hup, hfree segment (List.mem_cons_self ..)⟩
      obtain ⟨climbs', above', hlayers', _⟩ := hlayers.follow_landing hsegment
      rw [List.filter_cons_of_pos (by simp [hnil, hdot]), List.foldl_cons]
      exact ih hlayers' (advance_keep hlayers hroot hwalk hallows hsegment) hothers hrest

end Kept

/-! ### A path and its normal form -/

variable {current : Location} {path : Bytes}

theorem advance_kept (h : advance root (startOf current path) (segments path) =
      .ok (.reached place)) :
    advance root (startOf current path) (kept path) = .ok (.reached place) := by
  have hroot : Path.isAbsolute path = true → startOf current path = [] := by
    intro habsolute
    rw [startOf, if_pos habsolute]
  exact advance_foldl_keep (.nil (Path.isAbsolute path)) hroot (advance_nil_eq_reached_iff.2 rfl)
    (fun _ => Path.slash_notMem_of_mem_segments) h

/-- The segments of a normal form are those kept, after some that stay where they are. -/
theorem segments_normalize (path : Bytes) :
    ∃ idle, (∀ segment ∈ idle, segment = [] ∨ segment = [dot]) ∧
      segments (normalize path) = idle ++ kept path := by
  have hfree : ∀ segment ∈ kept path, slash ∉ segment := by
    intro segment hsegment
    exact (Path.ne_nil_and_slash_notMem (Path.isName_or_dotDot_of_mem_kept hsegment)).2
  rcases Path.normalize_cases path with ⟨_, _, hnormal⟩ | ⟨_, hkept, hnormal⟩ | ⟨_, hkept, hnormal⟩
  · by_cases hkept : kept path = []
    · refine ⟨[[], []], by simp, ?_⟩
      rw [hnormal, hkept]
      rfl
    · refine ⟨[[]], by simp, ?_⟩
      rw [hnormal]
      show [] :: segments _ = _
      rw [Path.segments_intercalate hkept hfree]
      rfl
  · refine ⟨[[dot]], by simp, ?_⟩
    rw [hnormal, hkept]
    rfl
  · refine ⟨[], by simp, ?_⟩
    rw [hnormal, Path.segments_intercalate hkept hfree, List.nil_append]

theorem advance_idle_append {entries : List (Bytes × Node)} {opening : Except Errno Target}
    (hplace : root.at? place = some (.directory entries opening)) {idle : List Bytes}
    (hidle : ∀ segment ∈ idle, segment = [] ∨ segment = [dot]) (remaining : List Bytes) :
    advance root place (idle ++ remaining) = advance root place remaining := by
  induction idle with
  | nil => rfl
  | cons segment idle ih =>
    have hsegment := hidle segment (List.mem_cons_self ..)
    have hothers : ∀ other ∈ idle, other = [] ∨ other = [dot] := by
      intro other hother
      exact hidle other (List.mem_cons_of_mem segment hother)
    rw [List.cons_append, advance_cons_of_allows (.stay hplace hsegment), follow, if_pos hsegment,
      ih hothers]

/-- Where the walk along a path ends, the walk along its normal form ends. -/
theorem advance_normalize
    (h : advance root (startOf current path) (segments path) = .ok (.reached place)) :
    advance root (startOf current (normalize path)) (segments (normalize path)) =
      .ok (.reached place) := by
  -- the first segment was taken, so the walk starts in a directory
  obtain ⟨first, others, hsegments⟩ := List.exists_cons_of_ne_nil (Path.segments_ne_nil path)
  obtain ⟨entries, opening, hstart⟩ :=
    (allows_of_advance_cons (by rwa [hsegments] at h)).exists_directory
  have hsame : startOf current (normalize path) = startOf current path := by
    rw [startOf, startOf, Path.isAbsolute_normalize]
  obtain ⟨idle, hidle, hnormal⟩ := segments_normalize path
  rw [hsame, hnormal, advance_idle_append hstart hidle, advance_kept h]

/-! ### Lookups -/

theorem LinkFree.advance_ne_link (hfree : LinkFree root) (segments : List Bytes)
    (holder : Location) (target : Bytes) (remaining : List Bytes) :
    advance root place segments ≠ .ok (.link holder target remaining) := by
  induction segments generalizing place with
  | nil =>
    intro h
    cases h
  | cons segment segments ih =>
    intro h
    rw [advance] at h
    split at h
    · rename_i entries opening hplace
      split at h
      · exact ih h
      · split at h
        · exact ih h
        · split at h
          · cases h
          · split at h
            · cases h
            · -- the link met is at a location of the tree
              rename_i found hentry
              apply hfree (place ++ [segment]) found
              rw [at?_concat, hplace]
              exact hentry
            · exact ih h
    · cases h

theorem LinkFree.walk_eq_ok_iff (hfree : LinkFree root) {links : Nat} {segments : List Bytes} :
    walk root links place segments = .ok place' ↔
      advance root place segments = .ok (.reached place') := by
  unfold walk
  cases hadvance : advance root place segments with
  | error errno => simp
  | ok halt =>
    cases halt with
    | reached found => simp
    | link holder target remaining =>
      exact absurd hadvance (hfree.advance_ne_link segments holder target remaining)

theorem LinkFree.locate_eq_ok_iff {tree : Tree} (hfree : LinkFree tree.root) :
    tree.locate path = .ok place ↔
      path ≠ [] ∧ path.length < pathLimit ∧
        advance tree.root (startOf tree.current path) (segments path) = .ok (.reached place) := by
  rw [locate]
  by_cases hpath : path = []
  · simp [hpath]
  · by_cases hlength : path.length ≥ pathLimit
    · simp [hpath, hlength, Nat.not_lt.2 hlength]
    · rw [if_neg hpath, if_neg hlength, hfree.walk_eq_ok_iff]
      simp [hpath, Nat.not_le.1 hlength]

theorem LinkFree.locate_normalize {tree : Tree} (hfree : LinkFree tree.root)
    (h : tree.locate path = .ok place) : tree.locate (normalize path) = .ok place := by
  obtain ⟨hpath, hlength, hwalk⟩ := hfree.locate_eq_ok_iff.1 h
  have hle : (normalize path).length < pathLimit :=
    Nat.lt_of_le_of_lt (Path.length_normalize_le hpath) hlength
  exact hfree.locate_eq_ok_iff.2 ⟨Path.normalize_ne_nil path, hle, advance_normalize hwalk⟩

theorem node?_of_locate {tree : Tree} {path' : Bytes} (h : tree.locate path = .ok place)
    (h' : tree.locate path' = .ok place) : tree.node? path' = tree.node? path := by
  rw [node?, node?, h, h']

theorem exists_locate_of_node? {tree : Tree} {node : Node} (h : tree.node? path = .ok node) :
    ∃ place, tree.locate path = .ok place := by
  rw [node?] at h
  cases hlocate : tree.locate path with
  | error errno =>
    rw [hlocate] at h
    cases h
  | ok place => exact ⟨place, rfl⟩

end Tree

/-! ### What is opened -/

/-- Two paths open the same thing: what is reported of the open file is the same, and
    reading whole gives the same content, or either fails in the same way under both, each
    time with the path that was given. -/
structure OpensAlike (lookup : Lookup) (path path' : Bytes) (host : Host) : Prop where
  status :
    (∃ status, OpenFile.status lookup path host = (.ok status, host.passed) ∧
      OpenFile.status lookup path' host = (.ok { status with path := path' }, host.passed)) ∨
    ∃ errno, OpenFile.status lookup path host =
        (.error (.os path errno.code .stating (.system errno)), host.passed) ∧
      OpenFile.status lookup path' host =
        (.error (.os path' errno.code .stating (.system errno)), host.passed)
  content_iff : ∀ policy content, (readWhole lookup path policy host).1 = .ok content ↔
    (readWhole lookup path' policy host).1 = .ok content
  error : ∀ policy e, (readWhole lookup path policy host).1 = .error e →
    ∃ e', (readWhole lookup path' policy host).1 = .error e' ∧ e'.osCode? = e.osCode? ∧
      e.path? = some path ∧ e'.path? = some path'

/-- What is fetched does not depend on the path, and a failure depends on it by its
    name only. -/
theorem Purpose.fetch_path (purpose : Purpose) (path path' : Bytes) (target : Target)
    (size : Nat) :
    (∃ content, purpose.fetch path target size = .ok content ∧
      purpose.fetch path' target size = .ok content) ∨
    ∃ activity source, purpose.fetch path target size = .error (.ofSystem path activity source) ∧
      purpose.fetch path' target size = .error (.ofSystem path' activity source) := by
  by_cases hmaps : purpose.maps size
  · rw [fetch_of_maps hmaps, fetch_of_maps hmaps]
    cases target.mapping with
    | ok content => exact Or.inl ⟨content, rfl, rfl⟩
    | error errno => exact Or.inr ⟨_, _, rfl, rfl⟩
  · rw [fetch_of_not_maps hmaps, fetch_of_not_maps hmaps]
    cases target.reading.exactly size with
    | ok content => exact Or.inl ⟨content, rfl, rfl⟩
    | error source => exact Or.inr ⟨_, _, rfl, rfl⟩

section Opens

variable {lookup : Lookup} {path path' : Bytes} {target : Target}

theorem opensAlike_of_unreported {errno : Errno} (hpath : path ≠ [])
    (hopen : lookup.open? path = .ok target) (hpath' : path' ≠ [])
    (hopen' : lookup.open? path' = .ok target) (hstat : target.stat = .error errno)
    (host : Host) : OpensAlike lookup path path' host := by
  have hacquire := OpenFile.acquire_unreported hpath hopen hstat host
  have hacquire' := OpenFile.acquire_unreported hpath' hopen' hstat host
  have hfst := congrArg Prod.fst hacquire
  have hfst' := congrArg Prod.fst hacquire'
  constructor
  case status =>
    refine Or.inr ⟨errno, ?_, ?_⟩
    · rw [OpenFile.status_of_error hfst, hacquire]
    · rw [OpenFile.status_of_error hfst', hacquire']
  case content_iff =>
    intro policy content
    rw [readWhole_refused hfst rfl, readWhole_refused hfst' rfl]
    simp
  case error =>
    intro policy e he
    rw [readWhole_refused hfst rfl] at he
    cases he
    have herror' : (readWhole lookup path' policy host).1 =
        .error (.os path' errno.code .stating (.system errno)) := by
      rw [readWhole_refused hfst' rfl]
    exact ⟨_, herror', rfl, rfl, rfl⟩

theorem opensAlike_of_finds {report : Stat} (h : Finds lookup path target report)
    (h' : Finds lookup path' target report) (host : Host) :
    OpensAlike lookup path path' host := by
  have hfetch := Purpose.whole.fetch_path path path' target report.size
  constructor
  case status =>
    exact Or.inl ⟨_, OpenFile.status_found h host, OpenFile.status_found h' host⟩
  case content_iff =>
    intro policy content
    rw [readWhole_found h, readWhole_found h']
    rcases hfetch with ⟨bytes, hok, hok'⟩ | ⟨activity, source, herror, herror'⟩
    · rw [hok, hok']
    · rw [herror, herror']
      simp [Except.map]
  case error =>
    intro policy e he
    rw [readWhole_found h] at he
    rcases hfetch with ⟨bytes, hok, hok'⟩ | ⟨activity, source, herror, herror'⟩
    · rw [hok] at he
      cases he
    · rw [herror] at he
      cases he
      rw [readWhole_found h', herror']
      exact ⟨_, rfl, rfl, rfl, rfl⟩

theorem opensAlike_of_open? (hpath : path ≠ []) (hopen : lookup.open? path = .ok target)
    (hpath' : path' ≠ []) (hopen' : lookup.open? path' = .ok target) (host : Host) :
    OpensAlike lookup path path' host := by
  cases hstat : target.stat with
  | error errno => exact opensAlike_of_unreported hpath hopen hpath' hopen' hstat host
  | ok report => exact opensAlike_of_finds ⟨hpath, hopen, hstat⟩ ⟨hpath', hopen', hstat⟩ host

end Opens

/-- **A normal form is safe on a tree without links.**  A path under which something is
    found has a normal form that leads to the same place, so the same is found there; and if
    it can be opened, the same is reported of it and read from it. -/
theorem Tree.find_normalize {tree : Tree} (hfree : LinkFree tree.root) {path : Bytes}
    (hnul : nul ∉ path) {node : Node} (hnode : tree.node? path = .ok node) (host : Host) :
    (∃ place, tree.locate path = .ok place ∧ tree.locate (Path.normalize path) = .ok place) ∧
      tree.node? (Path.normalize path) = .ok node ∧
      tree.find.kind (Path.normalize path) = tree.find.kind path ∧
      tree.find.target (Path.normalize path) = tree.find.target path ∧
      ∀ target, node.opening = .ok target →
        OpensAlike tree.find path (Path.normalize path) host := by
  obtain ⟨place, hplace⟩ := exists_locate_of_node? hnode
  have hplace' := hfree.locate_normalize hplace
  have hsame := node?_of_locate hplace hplace'
  have htarget : tree.find.target path = node.opening := by
    rw [find_target, hnode]
    rfl
  have htarget' : tree.find.target (Path.normalize path) = node.opening := by
    rw [find_target, hsame, hnode]
    rfl
  have hnul' : nul ∉ Path.normalize path := by
    intro hmem
    exact hnul (Path.mem_of_mem_normalize hmem (by decide) (by decide))
  have hpath : path ≠ [] := (hfree.locate_eq_ok_iff.1 hplace).1
  refine ⟨⟨place, hplace, hplace'⟩, hsame.trans hnode, by rw [find_kind, find_kind, hsame],
    htarget'.trans htarget.symm, fun target hopening => ?_⟩
  exact opensAlike_of_open? hpath (Lookup.open?_eq_ok_iff.2 ⟨hnul, htarget.trans hopening⟩)
    (Path.normalize_ne_nil path)
    (Lookup.open?_eq_ok_iff.2 ⟨hnul', htarget'.trans hopening⟩) host

/-- A directory `a` with a file `b`, seen from the directory `c` beside it. -/
def Tree.twoDirectories : Tree where
  root := .directory
    [([0x61], .directory [([0x62], .file [0x78] (.ofSeconds 7))]), ([0x63], .emptyDirectory)]
  current := [[0x63]]

theorem Tree.linkFree_twoDirectories : LinkFree twoDirectories.root := by
  have hfile : LinkFree (.directory [([0x62], .file [0x78] (.ofSeconds 7))]) := by
    apply linkFree_directory
    intro entry hentry
    rw [List.mem_singleton.1 hentry]
    exact linkFree_file _ _
  apply linkFree_directory
  intro entry hentry
  rcases List.mem_cons.1 hentry with rfl | hentry
  · exact hfile
  · rw [List.mem_singleton.1 hentry]
    exact linkFree_directory (by simp)

theorem Tree.find_normalize_twoDirectories :
    LinkFree twoDirectories.root ∧
      nul ∉ ofString "../a//../a/./b" ∧
      Path.normalize (ofString "../a//../a/./b") = ofString "../a/b" ∧
      twoDirectories.node? (ofString "../a//../a/./b") = .ok (.file [0x78] (.ofSeconds 7)) ∧
      twoDirectories.node? (ofString "../a/b") = .ok (.file [0x78] (.ofSeconds 7)) ∧
      OpensAlike twoDirectories.find (ofString "../a//../a/./b") (ofString "../a/b") {} := by
  have hnormal : Path.normalize (ofString "../a//../a/./b") = ofString "../a/b" := by
    decide +kernel
  have hnode : twoDirectories.node? (ofString "../a//../a/./b") =
      .ok (.file [0x78] (.ofSeconds 7)) := by
    rfl
  have hnul : nul ∉ ofString "../a//../a/./b" := by decide
  obtain ⟨_, hsame, _, _, halike⟩ := find_normalize linkFree_twoDirectories hnul hnode {}
  have hopens := halike _ rfl
  rw [hnormal] at hsame hopens
  exact ⟨linkFree_twoDirectories, hnul, hnormal, hnode, hsame, hopens⟩

end FileAccess
