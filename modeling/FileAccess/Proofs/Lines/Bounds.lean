/-
  FileAccess/Proofs/Lines/Bounds.lean
  ===================================
  **The cursor of a source over its whole life.**

  A source can be asked, iterated, looked at and released in any order, and a released
  source can still be asked.  `LineSource.Lives` is what all of this keeps: the window
  reads the content, its position is where a line begins or the content ends, the store
  has the content as long as it is there, and nothing is ahead once it is gone.  The last
  two are what keeps every index in bounds after a release too, where an iteration has no
  bytes to borrow.

  At every moment of a life, therefore, the cursor is within the content, no checked step
  fails, and whatever is called later moves the position forward, by a byte at least for
  each record delivered (`LineSource.Bounded`).
-/
import FileAccess.Proofs.Lines.Checks
import FileAccess.Proofs.Lines.Interleaving

namespace FileAccess

open Bytes

/-! ### Where a cursor stands and how it moves -/

/-- The start or the end of the content, or just after a newline. -/
def AtBoundary (content : Bytes) (position : Nat) : Prop :=
  position = 0 ∨ position = content.length ∨
    ∃ before rest, content = before ++ newline :: rest ∧ position = before.length + 1

structure Cursor.Within (content : Bytes) (c : Cursor) : Prop where
  start_eq : c.start = 0
  stop_eq : c.stop = content.length
  position_le : c.position ≤ c.stop
  boundary : AtBoundary content c.position

theorem Window.eq_of_next_eq_none {strip : Bool} {w w' : Window}
    (hnext : w.next strip = (none, w')) : w' = w := by
  unfold Window.next at hnext
  split at hnext
  · exact (Prod.mk.inj hnext).2.symm
  · cases hnext

namespace Window.Reads

variable {content : Bytes} {strip : Bool} {w w' : Window}

theorem within (h : w.Reads content) (hboundary : AtBoundary content w.cursor.position) :
    w.cursor.Within content :=
  ⟨h.start_eq, h.stop_eq, h.stop_eq ▸ h.position_le, hboundary⟩

theorem left?_eq (h : w.Reads content) : w.cursor.left? = some w.cursor.left :=
  if_pos (h.stop_eq ▸ h.position_le)

theorem position_lt_next (h : w.Reads content) {record : Bytes}
    (hnext : w.next strip = (some record, w')) : w.cursor.position < w'.cursor.position := by
  by_cases hahead : w.ahead = []
  · rw [h.next_eq_none strip hahead] at hnext
    cases hnext
  · rw [h.next_eq_some strip hahead] at hnext
    obtain ⟨_, rfl⟩ := Prod.mk.inj hnext
    exact Nat.lt_add_of_pos_right (firstLength_pos hahead)

/-- A record ends just after its newline, or at the end of the content. -/
theorem atBoundary_next (strip : Bool) (h : w.Reads content)
    (hboundary : AtBoundary content w.cursor.position) :
    AtBoundary content (w.next strip).2.cursor.position := by
  by_cases hahead : w.ahead = []
  · rw [h.next_eq_none strip hahead]
    exact hboundary
  · rw [h.next_eq_some strip hahead]
    show AtBoundary content (w.cursor.position + firstLength w.ahead)
    by_cases hmem : newline ∈ w.ahead
    · obtain ⟨body, rest, hsplit, hbody⟩ := List.eq_append_cons_of_mem hmem
      have hcontent : content = (content.take w.cursor.position ++ body) ++ newline :: rest := by
        rw [List.append_assoc, ← hsplit, h.ahead_eq, List.take_append_drop]
      refine Or.inr (Or.inr ⟨_, rest, hcontent, ?_⟩)
      rw [hsplit, firstLength_append_newline rest hbody, List.length_append,
        List.length_take_of_le h.position_le, Nat.add_assoc]
    · refine Or.inr (Or.inl ?_)
      rw [firstLength_of_newline_notMem hmem, h.position_add_length_ahead, h.stop_eq]

/-- However often a window is asked, it ends at a boundary, and each record delivered
    took it a byte further at least. -/
theorem forward_of_hears {answers : List (Option Bytes)} (h : w.Reads content)
    (hboundary : AtBoundary content w.cursor.position)
    (hhears : Hears (Window.next strip) w answers w') :
    AtBoundary content w'.cursor.position ∧
      w.cursor.position + answers.reduceOption.length ≤ w'.cursor.position := by
  induction hhears with
  | silence w => exact ⟨hboundary, Nat.le_refl _⟩
  | @question w w₁ w' answer answers hnext _ ih =>
    have hreads : w₁.Reads content := by simpa [hnext] using h.next strip
    have hnow : AtBoundary content w₁.cursor.position := by
      simpa [hnext] using h.atBoundary_next strip hboundary
    obtain ⟨hlast, hforward⟩ := ih hreads hnow
    refine ⟨hlast, ?_⟩
    cases answer with
    | none =>
      obtain rfl := eq_of_next_eq_none hnext
      simpa using hforward
    | some record =>
      have hlt := h.position_lt_next hnext
      simp only [List.reduceOption_cons_of_some, List.length_cons]
      omega

end Window.Reads

theorem Lines.window_next_of_next {lines lines' : Lines} {record : Option Bytes}
    (hnext : lines.next = (record, lines')) :
    lines.window.next lines.strips = (record, lines'.window) := by
  rw [Lines.next] at hnext
  obtain ⟨hrecord, rfl⟩ := Prod.mk.inj hnext
  exact Prod.ext hrecord rfl

/-! ### A life of calls, releases included -/

namespace LineSource

/-- What every call on a source keeps. -/
structure Lives (content : Bytes) (source : LineSource) : Prop where
  reads : source.window.Reads content
  boundary : AtBoundary content source.window.cursor.position
  kept : ∀ store, source.store = some store → store.content = content
  gone : source.store = none → source.window.ahead = []

theorem lives_start (options : LineOptions) (mtime : Timestamp) (path : Bytes) (store : Store) :
    (start options mtime path store).Lives store.content where
  reads := reads_start options mtime path store
  boundary := Or.inl rfl
  kept := by
    rintro _ ⟨⟩
    rfl
  gone := by
    intro hstore
    cases hstore

theorem next_of_gone {source : LineSource} (hstore : source.store = none) :
    source.next = (none, source) := by
  rw [next, hstore]

theorem release_of_gone {source : LineSource} (hstore : source.store = none) (host : Host) :
    source.release host = (source, host) := by
  rw [release, hstore]

namespace Lives

variable {content : Bytes} {source : LineSource}

theorem bytes_eq (h : source.Lives content) :
    source.bytes = content ∨ source.window.ahead = [] := by
  unfold bytes
  cases hstore : source.store with
  | none => exact Or.inr (h.gone hstore)
  | some store => exact Or.inl (h.kept store hstore)

/-- A source answers from its window even when its store is gone. -/
theorem next_eq (h : source.Lives content) :
    source.next = ((source.window.next source.strips).1,
      { source with window := (source.window.next source.strips).2 }) := by
  rcases Option.eq_none_or_eq_some source.store with hstore | ⟨store, hstore⟩
  · rw [next_of_gone hstore, h.reads.next_eq_none source.strips (h.gone hstore)]
  · exact next_of_store hstore

theorem of_hears (h : source.Lives content) {answers : List (Option Bytes)} {window : Window}
    (hhears : Hears (Window.next source.strips) source.window answers window) :
    ({ source with window := window } : LineSource).Lives content where
  reads := (h.reads.hears hhears).1
  boundary := (h.reads.forward_of_hears h.boundary hhears).1
  kept := h.kept
  gone := by
    intro hstore
    have hnone := h.reads.next_eq_none source.strips (h.gone hstore)
    rw [(hhears.of_next_eq_none hnone).1]
    exact h.gone hstore

theorem release (h : source.Lives content) (host : Host) :
    (source.release host).1.Lives content ∧ (source.release host).1.store = none ∧
      source.window.cursor.position ≤ (source.release host).1.window.cursor.position := by
  unfold LineSource.release
  cases hstore : source.store with
  | none => exact ⟨h, hstore, Nat.le_refl _⟩
  | some store =>
    refine ⟨⟨h.reads.giveUp, Or.inr (Or.inl h.reads.stop_eq), by simp, fun _ => rfl⟩, rfl, ?_⟩
    show source.window.cursor.position ≤ source.window.cursor.stop
    rw [h.reads.stop_eq]
    exact h.reads.position_le

/-- **One call.**  It leaves the source alive and its store where it was, but for a
    release, and moves the position by a byte at least for each record it delivers. -/
theorem after (h : source.Lives content) (host : Host) (call : Call) :
    (source.after host call).1.Lives content ∧
      ((source.after host call).1.store = none ↔ source.store = none ∨ call = .release) ∧
      source.window.cursor.position + (call.heard (source.answer host call)).reduceOption.length ≤
        (source.after host call).1.window.cursor.position := by
  by_cases hcall : call = .release
  · subst hcall
    obtain ⟨hlives, hgone, hforward⟩ := h.release host
    exact ⟨hlives, iff_of_true hgone (Or.inr rfl), hforward⟩
  · obtain ⟨window, hafter, hhears⟩ := hears_call h.next_eq h.reads host hcall
    rw [hafter]
    exact ⟨h.of_hears hhears, by simp [hcall], (h.reads.forward_of_hears h.boundary hhears).2⟩

/-- **A run of calls.** -/
theorem afterAll (h : source.Lives content) (host : Host) (calls : List Call) :
    (source.afterAll host calls).1.Lives content ∧
      ((source.afterAll host calls).1.store = none ↔ source.store = none ∨ .release ∈ calls) ∧
      source.window.cursor.position + (source.heard host calls).reduceOption.length ≤
        (source.afterAll host calls).1.window.cursor.position := by
  induction calls generalizing source host with
  | nil => exact ⟨h, by simp [LineSource.afterAll], Nat.le_refl _⟩
  | cons call calls ih =>
    obtain ⟨hlives, hstore, hforward⟩ := h.after host call
    obtain ⟨hlast, hgone, hrest⟩ := ih hlives (source.after host call).2
    refine ⟨hlast, ?_, ?_⟩
    · simp [afterAll_cons, hgone, hstore, or_assoc, eq_comm]
    · simp only [heard_cons, afterAll_cons, List.reduceOption_append, List.length_append]
      omega

end Lives

/-! ### Every moment of a life -/

/-- What is left of a source once its store is gone: it has no records, it is mapped no
    more, and whatever is called leaves it as it is. -/
structure Released (source : LineSource) : Prop where
  position_eq : source.window.cursor.position = source.window.cursor.stop
  next_eq : source.next = (none, source)
  ask_eq : ∀ questions,
    source.lines.ask questions = (List.replicate questions none, source.lines)
  remaining_eq : source.remaining = []
  isMapped_eq : source.isMapped = false
  release_eq : ∀ host, source.release host = (source, host)
  close_eq : ∀ host, source.close host = host
  still : ∀ host later, (source.afterAll host later).1 = source ∧
    ∀ answer ∈ source.heard host later, answer = none

/-- What is true of a source at one moment of its life, and of all that is called later. -/
structure Bounded (content : Bytes) (source : LineSource) (host : Host) : Prop where
  within : source.window.cursor.Within content
  length_eq : source.length = content.length
  /-- No slice is out of bounds, no difference is below zero, and the cursor is not moved
      back or past its end, whatever is asked now. -/
  next?_eq : source.next? = some (source.next.1, source.next.2.window.cursor)
  ask?_eq : ∀ questions, source.ask? questions =
    some ((source.lines.ask questions).1, (source.lines.ask questions).2.window.cursor)
  /-- Every other call than a release is so many steps of an iteration. -/
  asks : ∀ call, call ≠ .release → ∃ questions,
    call.heard (source.answer host call) = (source.lines.ask questions).1 ∧
      (source.after host call).1 = source.resume (source.lines.ask questions).2
  remaining?_eq : source.remaining? = some source.remaining
  left?_eq : source.window.cursor.left? = some source.window.cursor.left
  release?_eq : source.release? = some (source.release host).1.window.cursor
  /-- At each step of an iteration the cursor is within the content, and a record moves it. -/
  steps : ∀ questions, (source.lines.ask questions).2.window.cursor.Within content ∧
    ∀ record lines, (source.lines.ask questions).2.next = (some record, lines) →
      (source.lines.ask questions).2.window.cursor.position < lines.window.cursor.position
  /-- Later calls never move the position back, and forward if they deliver a record. -/
  notBack : ∀ later, source.window.cursor.position ≤
    (source.afterAll host later).1.window.cursor.position
  forward : ∀ later record, some record ∈ source.heard host later →
    source.window.cursor.position < (source.afterAll host later).1.window.cursor.position
  released : source.store = none → source.Released

namespace Lives

variable {content : Bytes} {source : LineSource}

theorem next_window_of_gone (h : source.Lives content) (hstore : source.store = none) :
    source.window.next source.strips = (none, source.window) :=
  h.reads.next_eq_none source.strips (h.gone hstore)

/-- Whatever is called on a source whose store is gone, no record comes of it and the
    source stays as it is. -/
theorem still_of_gone (h : source.Lives content) (hstore : source.store = none) (host : Host)
    (later : List Call) :
    (source.afterAll host later).1 = source ∧
      ∀ answer ∈ source.heard host later, answer = none := by
  induction later generalizing host with
  | nil => exact ⟨rfl, by simp [heard]⟩
  | cons call later ih =>
    have hcall : (source.after host call).1 = source ∧
        ∀ answer ∈ call.heard (source.answer host call), answer = none := by
      by_cases hrelease : call = .release
      · subst hrelease
        have hsilent : Call.release.heard (source.answer host .release) = [] := rfl
        exact ⟨congrArg Prod.fst (release_of_gone hstore host), by simp [hsilent]⟩
      · obtain ⟨window, hafter, hhears⟩ := hears_call h.next_eq h.reads host hrelease
        obtain ⟨rfl, hnone⟩ := hhears.of_next_eq_none (h.next_window_of_gone hstore)
        exact ⟨hafter, hnone⟩
    obtain ⟨hrest, hanswers⟩ := ih (source.after host call).2
    rw [heard_cons, afterAll_cons, hcall.1]
    refine ⟨hrest, ?_⟩
    intro answer hanswer
    rcases List.mem_append.1 hanswer with hnow | hlater
    · exact hcall.2 answer hnow
    · exact hanswers answer hlater

theorem released (h : source.Lives content) (hstore : source.store = none) :
    source.Released where
  position_eq := by
    rw [← h.reads.position_add_length_ahead, h.gone hstore, List.length_nil, Nat.add_zero]
  next_eq := next_of_gone hstore
  ask_eq := by
    apply Lines.ask_of_next_eq_none
    rw [Lines.next, lines, h.next_window_of_gone hstore]
  remaining_eq := h.gone hstore
  isMapped_eq := by rw [isMapped, hstore]; rfl
  release_eq := release_of_gone hstore
  close_eq := by
    intro host
    simp [LineSource.close, LineSource.drop, release_of_gone hstore]
  still := h.still_of_gone hstore

theorem next?_eq (h : source.Lives content) :
    source.next? = some (source.next.1, source.next.2.window.cursor) := by
  rcases Option.eq_none_or_eq_some source.store with hstore | ⟨store, hstore⟩
  · rw [LineSource.next?, hstore, next_of_gone hstore]
  · rw [LineSource.next?, hstore, next_of_store hstore]
    exact h.reads.cut?_eq source.strips (Or.inl (h.kept store hstore))

theorem remaining?_eq (h : source.Lives content) : source.remaining? = some source.remaining := by
  rcases Option.eq_none_or_eq_some source.store with hstore | ⟨store, hstore⟩
  · rw [LineSource.remaining?, hstore, remaining, h.gone hstore]
  · have hslice := h.reads.slice?_eq (Nat.le_refl _)
    rw [h.reads.position_add_length_ahead, List.take_length] at hslice
    rw [LineSource.remaining?, hstore]
    show slice? store.content _ _ = _
    rw [h.kept store hstore, hslice, remaining]

theorem release?_eq (h : source.Lives content) (host : Host) :
    source.release? = some (source.release host).1.window.cursor := by
  rcases Option.eq_none_or_eq_some source.store with hstore | ⟨store, hstore⟩
  · rw [LineSource.release?, hstore, release_of_gone hstore]
  · have hmoved := h.reads.advanceTo?_eq (Nat.le_refl _)
    rw [h.reads.position_add_length_ahead] at hmoved
    rw [LineSource.release?, hstore, hmoved, LineSource.release, hstore]
    simp [Window.advance, Window.giveUp, h.reads.position_add_length_ahead]

theorem steps (h : source.Lives content) (questions : Nat) :
    (source.lines.ask questions).2.window.cursor.Within content ∧
      ∀ record lines, (source.lines.ask questions).2.next = (some record, lines) →
        (source.lines.ask questions).2.window.cursor.position < lines.window.cursor.position := by
  obtain ⟨_, hhears⟩ := source.lines.hears_ask questions
  have hreads := (h.reads.hears hhears).1
  refine ⟨hreads.within (h.reads.forward_of_hears h.boundary hhears).1, ?_⟩
  intro record lines hnext
  exact hreads.position_lt_next (Lines.window_next_of_next hnext)

/-- **Every moment of a life is in bounds.** -/
theorem bounded (h : source.Lives content) (host : Host) : source.Bounded content host where
  within := h.reads.within h.boundary
  length_eq := by rw [length, h.reads.stop_eq, h.reads.start_eq, Nat.sub_zero]
  next?_eq := h.next?_eq
  ask?_eq := source.lines.ask?_eq h.reads h.bytes_eq
  asks := by
    intro call hcall
    obtain ⟨window, hafter, hhears⟩ := hears_call h.next_eq h.reads host hcall
    refine ⟨_, (congrArg Prod.fst hhears.ask_eq).symm, ?_⟩
    rw [lines, hhears.ask_eq, hafter, resume]
  remaining?_eq := h.remaining?_eq
  left?_eq := h.reads.left?_eq
  release?_eq := h.release?_eq host
  steps := h.steps
  notBack := by
    intro later
    exact Nat.le_of_add_right_le (h.afterAll host later).2.2
  forward := by
    intro later record hheard
    have hcount := List.length_pos_of_mem (List.reduceOption_mem_iff.2 hheard)
    have hforward := (h.afterAll host later).2.2
    omega
  released := h.released

end Lives

end LineSource

/-- **The cursor of a source is in bounds all its life.**  Whatever is called on an opened
    source, releases included, the cursor stays within the content from one line boundary
    to a later one and no step on the way goes out of bounds; and the store is gone exactly
    when there has been a release. -/
theorem openLines_bounded {lookup : Lookup} {path : Bytes} {options : LineOptions}
    {host host' : Host} {source : LineSource}
    (hopened : openLines lookup path options host = (.ok (.source source), host')) :
    ∃ target report content, Finds lookup path target report ∧
      (Purpose.lines options.threshold).fetch path target report.size = .ok content ∧
      content.length = report.size ∧
      ∀ calls, (source.afterAll host' calls).1.Bounded content (source.afterAll host' calls).2 ∧
        ((source.afterAll host' calls).1.store = none ↔ .release ∈ calls) := by
  obtain ⟨target, report, store, hfinds, hfetch, rfl⟩ := exists_start_of_openLines_eq hopened
  refine ⟨target, report, store.content, hfinds, hfetch,
    Purpose.length_of_fetch hfinds.stat_eq hfetch, ?_⟩
  intro calls
  obtain ⟨hlives, hgone, _⟩ :=
    (LineSource.lives_start options report.mtime path store).afterAll host' calls
  refine ⟨hlives.bounded _, hgone.trans ?_⟩
  simp [LineSource.start]

theorem openLines_bounded_releasedTwice :
    ∃ source host', openLines (.everywhere [0x61, newline, newline, 0x62] (.ofSeconds 0))
          [0x66] ⟨true, .raise, ⟨0⟩, 0⟩ {} = (.ok (.source source), host') ∧
      (source.afterAll host' [.next false, .take 1]).1.window.cursor = ⟨0, 4, 3⟩ ∧
      (source.afterAll host' [.next false, .take 1]).1.Bounded [0x61, newline, newline, 0x62]
        (source.afterAll host' [.next false, .take 1]).2 ∧
      (source.afterAll host' [.next false, .release, .ask 2, .release]).1.Released ∧
      (source.afterAll host' [.next false, .release, .ask 2, .release]).1.window.cursor =
        ⟨0, 4, 4⟩ := by
  have hfile : Finds (.everywhere [0x61, newline, newline, 0x62] (.ofSeconds 0)) [0x66] _ _ :=
    .file (by decide) rfl
  have hwhole := Purpose.fetch_file (.lines 0) [0x66] [0x61, newline, newline, 0x62] (.ofSeconds 0)
  have hopened : openLines (.everywhere [0x61, newline, newline, 0x62] (.ofSeconds 0)) [0x66]
      ⟨true, .raise, ⟨0⟩, 0⟩ {} = _ := openLines_mapped hfile (by decide) hwhole {}
  obtain ⟨target, report, content, hfinds, hfetch, _, hlife⟩ := openLines_bounded hopened
  obtain ⟨rfl, rfl⟩ := hfile.unique hfinds
  obtain rfl : content = [0x61, newline, newline, 0x62] :=
    Except.ok.inj (hfetch.symm.trans hwhole)
  have hgone := hlife [.next false, .release, .ask 2, .release]
  exact ⟨_, _, hopened, rfl, (hlife [.next false, .take 1]).1,
    hgone.1.released (hgone.2.2 (by decide)), rfl⟩

end FileAccess
