/-
  FileAccess/Proofs/Lines/Delimiters.lean
  =======================================
  **Stripping newlines changes nothing but the newlines.**

  Whether a source strips its newlines is seen in the records it delivers and nowhere else:
  the flag has no part in how a window moves (`Window.next_chomp`), so setting it commutes
  with every call on a source (`LineSource.after_stripping`), and of the answers only the
  records change, each by the newline it ends in (`LineSource.answer_stripping`).  With
  this, two sources on one file that strip and keep their newlines stay in step through
  any calls.

  Nothing is lost by stripping either: no stripped record has a newline in it, so the
  records joined by newlines are the content, up to the newline the content ends in
  (`intercalate_recordsOf`).
-/
import FileAccess.Proofs.Lines.Bounds

namespace FileAccess

open Bytes

/-! ### A record without its newline -/

/-- A record without the newline it ends in, if it ends in one. -/
def chomp (record : Bytes) : Bytes :=
  if record.getLast? = some newline then record.dropLast else record

theorem chomp_concat_newline (body : Bytes) : chomp (body ++ [newline]) = body := by
  simp [chomp]

theorem chomp_of_newline_notMem {record : Bytes} (h : newline ∉ record) :
    chomp record = record := by
  apply if_neg
  intro hlast
  exact h (List.mem_of_getLast? hlast)

theorem firstRecord_true (bs : Bytes) : firstRecord true bs = chomp (firstRecord false bs) := by
  by_cases hmem : newline ∈ bs
  · obtain ⟨body, rest, rfl, hbody⟩ := List.eq_append_cons_of_mem hmem
    simp [firstRecord_append_newline rest _ hbody, chomp_concat_newline]
  · simp [firstRecord_of_newline_notMem _ hmem, chomp_of_newline_notMem hmem]

theorem newline_notMem_firstRecord (bs : Bytes) : newline ∉ firstRecord true bs := by
  by_cases hmem : newline ∈ bs
  · obtain ⟨body, rest, rfl, hbody⟩ := List.eq_append_cons_of_mem hmem
    simpa [firstRecord_append_newline rest _ hbody] using hbody
  · simpa [firstRecord_of_newline_notMem _ hmem] using hmem

/-- The stripped records of a content, joined by newlines, are the content, but for the
    newline it ends in. -/
theorem intercalate_recordsOf (content : Bytes) :
    [newline].intercalate (recordsOf true content) ++
      (if content.getLast? = some newline then [newline] else []) = content := by
  induction content using lines_induction with
  | nil => simp
  | unended bs hne hfree =>
    have hlast : bs.getLast? ≠ some newline := by
      intro hlast
      exact hfree (List.mem_of_getLast? hlast)
    simp [recordsOf_unended true hne hfree, hlast]
  | ended body rest hbody ih =>
    rw [recordsOf_append_newline true rest hbody]
    cases hrecords : recordsOf true rest with
    | nil =>
      obtain rfl := recordsOf_eq_nil.1 hrecords
      simp
    | cons record records =>
      -- the rest has a record, so it is what decides how the whole ends
      obtain ⟨b, bs, rfl⟩ := List.exists_cons_of_ne_nil
        (mt recordsOf_eq_nil.2 (hrecords ▸ List.cons_ne_nil record records))
      rw [hrecords] at ih
      simpa [List.intercalate_cons_cons, List.getLast?_cons_cons] using ih

/-! ### Windows -/

namespace Window

theorem next_chomp (w : Window) :
    w.next true = ((w.next false).1.map chomp, (w.next false).2) := by
  unfold Window.next
  split
  · rfl
  · simp [firstRecord_true]

theorem takeFrom_chomp (cut : List Bytes) (n : Nat) (w : Window) :
    takeFrom true (cut.map chomp) n w =
      ((takeFrom false cut n w).1.map chomp, (takeFrom false cut n w).2) := by
  induction n generalizing cut w with
  | zero => simp [takeFrom]
  | succ n ih =>
    rw [takeFrom, takeFrom, next_chomp]
    rcases w.next false with ⟨_ | record, w'⟩
    · simp
    · exact ih (record :: cut) w'

theorem take_chomp (n : Nat) (w : Window) :
    w.take true n = ((w.take false n).1.map chomp, (w.take false n).2) :=
  takeFrom_chomp [] n w

theorem newline_notMem_of_next {w w' : Window} {record : Bytes}
    (hnext : w.next true = (some record, w')) : newline ∉ record := by
  unfold Window.next at hnext
  split at hnext
  · cases hnext
  · cases hnext
    exact newline_notMem_firstRecord w.ahead

theorem newline_notMem_of_hears {w w' : Window} {answers : List (Option Bytes)} {record : Bytes}
    (hhears : Hears (Window.next true) w answers w') (hrecord : some record ∈ answers) :
    newline ∉ record := by
  induction hhears with
  | silence w => simp at hrecord
  | question hnext _ ih =>
    rcases List.mem_cons.1 hrecord with rfl | hlater
    · exact newline_notMem_of_next hnext
    · exact ih hlater

end Window

/-! ### Iterations -/

namespace Lines

/-- The iteration, stripping newlines from now on. -/
def stripping (lines : Lines) : Lines :=
  { lines with strips := true }

variable {lines : Lines} (hkeeps : lines.strips = false)

include hkeeps

theorem next_stripping :
    lines.stripping.next = (lines.next.1.map chomp, lines.next.2.stripping) := by
  simp [next, stripping, hkeeps, Window.next_chomp]

theorem ask_stripping (questions : Nat) :
    lines.stripping.ask questions =
      ((lines.ask questions).1.map (Option.map chomp), (lines.ask questions).2.stripping) := by
  induction questions generalizing lines with
  | zero => rfl
  | succ questions ih =>
    have hnext : lines.next.2.strips = false := hkeeps
    simp [ask, next_stripping hkeeps, ih hnext]

theorem take_stripping (n : Nat) :
    lines.stripping.take n = ((lines.take n).1.map chomp, (lines.take n).2.stripping) := by
  simp [take, stripping, hkeeps, Window.take_chomp]

theorem drain_stripping :
    lines.stripping.drain = (lines.drain.1.map chomp, lines.drain.2.stripping) := by
  simp [drain, Window.drain, stripping, hkeeps, Window.take_chomp]

end Lines

/-! ### Sources -/

namespace LineSource

/-- The answer with every record in it stripped. -/
def Answer.stripped : Answer → Answer
  | .record delivered => .record (delivered.map chomp)
  | .asked delivered => .asked (delivered.map (Option.map chomp))
  | .records delivered => .records (delivered.map chomp)
  | answer => answer

/-- The source, stripping newlines from now on. -/
def stripping (source : LineSource) : LineSource :=
  { source with strips := true }

theorem strips_after (source : LineSource) (host : Host) (call : Call) :
    (source.after host call).1.strips = source.strips := by
  cases call with
  | next asReader =>
    have hnext : source.next.2.strips = source.strips := by
      rcases Option.eq_none_or_eq_some source.store with hstore | ⟨store, hstore⟩
      · rw [next_of_gone hstore]
      · rw [next_of_store hstore]
    cases asReader <;> exact hnext
  | release => cases hstore : source.store <;> simp [after, release, hstore]
  | mtime asReader => cases asReader <;> rfl
  | _ => rfl

theorem Call.heard_stripped (call : Call) (answer : Answer) :
    call.heard answer.stripped = (call.heard answer).map (Option.map chomp) := by
  cases answer with
  | records delivered =>
    cases call with
    | take n => by_cases hshort : delivered.length < n <;> simp [heard, Answer.stripped, hshort]
    | drain => simp [heard, Answer.stripped]
    | _ => rfl
  | _ => rfl

section Stripping

variable {source : LineSource} (hkeeps : source.strips = false)

include hkeeps

theorem next_stripping :
    source.stripping.next = (source.next.1.map chomp, source.next.2.stripping) := by
  rcases Option.eq_none_or_eq_some source.store with hstore | ⟨store, hstore⟩
  · have hstripping : source.stripping.store = none := hstore
    rw [next_of_gone hstore, next_of_gone hstripping]
    rfl
  · have hstripping : source.stripping.store = some store := hstore
    have hwindow : source.stripping.window.next source.stripping.strips =
        ((source.window.next false).1.map chomp, (source.window.next false).2) :=
      source.window.next_chomp
    rw [next_of_store hstore, next_of_store hstripping, hwindow, hkeeps]
    rfl

/-- **Stripping commutes with every call.** -/
theorem after_stripping (host : Host) (call : Call) :
    source.stripping.after host call =
      ((source.after host call).1.stripping, (source.after host call).2) := by
  have hlines : source.stripping.lines = source.lines.stripping := rfl
  cases call with
  | next asReader =>
    have hnext := next_stripping hkeeps
    cases asReader with
    | false => simp [after, hnext]
    | true => simp [after, hnext, ofReader, Reader.next]
  | ask questions =>
    rw [after, after, hlines, Lines.ask_stripping hkeeps]
    rfl
  | take n =>
    rw [after, after, hlines, Lines.take_stripping hkeeps]
    rfl
  | drain =>
    rw [after, after, hlines, Lines.drain_stripping hkeeps]
    rfl
  | release => cases hstore : source.store <;> simp [after, release, stripping, hstore]
  | mtime asReader => cases asReader <;> rfl
  | _ => rfl

/-- Of the answers, only that to the question of stripping is not the same up to the
    newlines of records. -/
theorem answer_stripping (host : Host) {call : Call} (hcall : call ≠ .strips) :
    source.stripping.answer host call = (source.answer host call).stripped := by
  have hlines : source.stripping.lines = source.lines.stripping := rfl
  cases call with
  | next asReader =>
    have hnext := next_stripping hkeeps
    cases asReader with
    | false => simp [answer, hnext, Answer.stripped]
    | true => simp [answer, hnext, Reader.next, Answer.stripped]
  | ask questions =>
    rw [answer, answer, hlines, Lines.ask_stripping hkeeps]
    rfl
  | take n =>
    rw [answer, answer, hlines, Lines.take_stripping hkeeps]
    rfl
  | drain =>
    rw [answer, answer, hlines, Lines.drain_stripping hkeeps]
    rfl
  | strips => exact absurd rfl hcall
  | mtime asReader => cases asReader <;> rfl
  | _ => rfl

theorem afterAll_stripping (host : Host) (calls : List Call) :
    source.stripping.afterAll host calls =
      ((source.afterAll host calls).1.stripping, (source.afterAll host calls).2) := by
  induction calls generalizing source host with
  | nil => rfl
  | cons call calls ih =>
    have hafter := (source.strips_after host call).trans hkeeps
    rw [afterAll_cons, afterAll_cons, after_stripping hkeeps, ih hafter]

theorem answers_stripping (host : Host) (calls : List Call) (i : Nat)
    (hcall : calls[i]? ≠ some .strips) :
    (source.stripping.answers host calls)[i]? =
      (source.answers host calls)[i]?.map Answer.stripped := by
  induction calls generalizing source host i with
  | nil => rfl
  | cons call calls ih =>
    cases i with
    | zero =>
      have hne : call ≠ .strips := by
        rintro rfl
        exact hcall rfl
      exact congrArg some (answer_stripping hkeeps host hne)
    | succ i =>
      have hafter := (source.strips_after host call).trans hkeeps
      have hrest := ih hafter (source.after host call).2 i hcall
      rw [answers, after_stripping hkeeps]
      exact hrest

theorem heard_stripping (host : Host) (calls : List Call) :
    source.stripping.heard host calls = (source.heard host calls).map (Option.map chomp) := by
  induction calls generalizing source host with
  | nil => rfl
  | cons call calls ih =>
    have hafter := (source.strips_after host call).trans hkeeps
    have hcall : call.heard (source.stripping.answer host call) =
        (call.heard (source.answer host call)).map (Option.map chomp) := by
      by_cases hstrips : call = .strips
      · subst hstrips
        rfl
      · rw [answer_stripping hkeeps host hstrips, Call.heard_stripped]
    rw [heard_cons, heard_cons, hcall, after_stripping hkeeps, ih hafter, List.map_append]

end Stripping

/-! ### Two sources in step -/

/-- What tells a source that strips its newlines from one that keeps them: the newlines
    that its records end in, and nothing else. -/
structure InStep (content : Bytes) (s t : LineSource) (g h : Host) : Prop where
  cursor_eq : ∀ calls, (s.afterAll g calls).1.window.cursor = (t.afterAll h calls).1.window.cursor
  remaining_eq : ∀ calls, (s.afterAll g calls).1.remaining = (t.afterAll h calls).1.remaining
  /-- Each question has a record of both or of neither, and the first is the second stripped. -/
  heard_eq : ∀ calls, s.heard g calls = (t.heard h calls).map (Option.map chomp)
  answers_eq : ∀ (calls : List Call) (i : Nat), calls[i]? ≠ some .strips →
    (s.answers g calls)[i]? = (t.answers h calls)[i]?.map Answer.stripped
  unbroken : ∀ calls record, some record ∈ s.heard g calls → newline ∉ record
  /-- A drain after any calls comes to the end. -/
  ends : ∀ calls, none ∈ s.heard g (calls ++ [.drain])
  /-- Calls that come to the end without a release have heard the whole content. -/
  recovered : ∀ calls, .release ∉ calls → none ∈ s.heard g calls →
    [newline].intercalate (s.heard g calls).reduceOption ++
      (if content.getLast? = some newline then [newline] else []) = content

theorem Lives.newline_notMem {content : Bytes} {source : LineSource} (h : source.Lives content)
    (hstrips : source.strips = true) (host : Host) (calls : List Call) {record : Bytes}
    (hrecord : some record ∈ source.heard host calls) : newline ∉ record := by
  induction calls generalizing source host with
  | nil => simp [heard] at hrecord
  | cons call calls ih =>
    rw [heard_cons] at hrecord
    rcases List.mem_append.1 hrecord with hnow | hlater
    · by_cases hcall : call = .release
      · subst hcall
        cases hnow
      · obtain ⟨window, _, hhears⟩ := hears_call h.next_eq h.reads host hcall
        rw [hstrips] at hhears
        exact Window.newline_notMem_of_hears hhears hnow
    · exact ih (h.after host call).1 ((source.strips_after host call).trans hstrips) _ hlater

theorem Alike.inStep {content : Bytes} {s t : LineSource} {g h : Host} {store : Store}
    (halike : Alike s t.stripping g h) (hkeeps : t.strips = false)
    (hmapped : s.isMapped = t.isMapped) (hlives : s.Lives content)
    (hstore : s.store = some store) (hahead : s.remaining = content) :
    InStep content s t g h := by
  have hwindow : ∀ calls, (s.afterAll g calls).1.window = (t.afterAll h calls).1.window := by
    intro calls
    rw [(halike.afterAll calls).window_eq, afterAll_stripping hkeeps]
    rfl
  have hanswers := halike.answers_eq_of_isMapped hmapped
  constructor
  case cursor_eq =>
    intro calls
    rw [hwindow]
  case remaining_eq =>
    intro calls
    rw [remaining, remaining, hwindow]
  case heard_eq =>
    intro calls
    rw [← heard_stripping hkeeps, heard, heard, hanswers]
  case answers_eq =>
    intro calls i hcall
    rw [hanswers, answers_stripping hkeeps h calls i hcall]
  case unbroken =>
    intro calls record hrecord
    exact hlives.newline_notMem halike.strips_eq g calls hrecord
  case ends =>
    intro calls
    rw [heard_append]
    exact List.mem_append_right _ (none_mem_heard_drain _ _)
  case recovered =>
    intro calls hcalls hnone
    obtain ⟨window, _, hhears⟩ := hears_calls hstore hlives.reads g hcalls
    have hstrips : s.strips = true := halike.strips_eq
    have hrecords := hlives.reads.reduceOption_of_none_mem hhears hnone
    rw [hstrips, show s.window.ahead = content from hahead] at hrecords
    rw [hrecords]
    exact intercalate_recordsOf content

end LineSource

/-- **Stripping newlines changes the newlines that records end in, and nothing else.**  Two
    sources on one file, of which one strips its newlines and one keeps them, stay in step
    through any calls, and from what the first delivers the content is recovered. -/
theorem openLines_inStep {lookup : Lookup} {path content : Bytes} {mtime : Timestamp}
    (hpath : path ≠ []) (hopen : lookup.open? path = .ok (.file content mtime))
    (options : LineOptions) {host host' : Host} (hcells : host.cells = host'.cells) :
    ∃ s g t h,
      openLines lookup path { options with strip := true } host = (.ok (.source s), g) ∧
      openLines lookup path { options with strip := false } host' = (.ok (.source t), h) ∧
      LineSource.InStep content s t g h := by
  obtain ⟨store, g, hs, rfl, hmapped, hg⟩ :=
    exists_openLines_eq hpath hopen { options with strip := true } host
  obtain ⟨store', h, ht, hcontent, hmapped', hh⟩ :=
    exists_openLines_eq hpath hopen { options with strip := false } host'
  refine ⟨_, g, _, h, hs, ht, ?_⟩
  have halike : LineSource.Alike (.start { options with strip := true } mtime path store)
      (LineSource.start { options with strip := false } mtime path store').stripping g h :=
    { store_isSome := rfl
      window_eq := congrArg Window.ofContent hcontent.symm
      strips_eq := rfl
      rawMtime_eq := rfl
      preferences_eq := rfl
      path_eq := rfl
      cells_eq := hg.trans (hcells.trans hh.symm) }
  exact halike.inStep rfl (hmapped.trans hmapped'.symm) (LineSource.lives_start _ _ _ store) rfl
    rfl

theorem openLines_inStep_blankLine :
    ∃ s g t h,
      openLines (.everywhere [0x61, newline, newline] (.ofSeconds 0)) [0x66]
          ⟨true, .raise, ⟨0⟩, 2⟩ {} = (.ok (.source s), g) ∧
      openLines (.everywhere [0x61, newline, newline] (.ofSeconds 0)) [0x66]
          ⟨false, .raise, ⟨0⟩, 2⟩ { issued := 1 } = (.ok (.source t), h) ∧
      (s.afterAll g [.next false]).1.remaining = (t.afterAll h [.next false]).1.remaining ∧
      [newline].intercalate (s.heard g [.drain]).reduceOption ++ [newline] =
        [0x61, newline, newline] := by
  obtain ⟨s, g, t, h, hs, ht, hstep⟩ :=
    @openLines_inStep _ [0x66] [0x61, newline, newline] _ (by decide)
      (show (Lookup.everywhere [0x61, newline, newline] (.ofSeconds 0)).open? [0x66] = _ from rfl)
      ⟨true, .raise, ⟨0⟩, 2⟩ {} { issued := 1 } rfl
  have hrecovered := hstep.recovered [.drain] (by decide) (hstep.ends [])
  exact ⟨s, g, t, h, hs, ht, hstep.remaining_eq [.next false], hrecovered⟩

end FileAccess
