/-
  FileAccess/Proofs/Lines/Interleaving.lean
  =========================================
  **Entry points that share one position.**

  A record can be asked of a source itself, of its reader, or of an iteration that
  borrows the source's window and hands it back where it stopped.  Each of these puts
  its questions to the same window (`LineSource.hears_call`), and every other call but a
  release leaves the window where it is.  So calls made in order are questions put to
  one window, whoever asks (`LineSource.hears_calls`).

  What a window answers depends on the number of questions alone: the records ahead of
  it in turn, then nothing (`Window.Reads.hears`).  From this follow the records that
  any interleaving of the entry points delivers, what it leaves, and that nothing comes
  after the first answer without a record.
-/
import FileAccess.Proofs.Lines.Calls
import Mathlib.Data.List.ReduceOption

namespace FileAccess

open Bytes

/-! ### Questions put to a state -/

section Hears

variable {σ : Type} {next : σ → Option Bytes × σ} {s s' s'' : σ}

/-- The first state, asked once for each of the answers, gives them and ends as the last
    state. -/
inductive Hears (next : σ → Option Bytes × σ) : σ → List (Option Bytes) → σ → Prop where
  | silence (s : σ) : Hears next s [] s
  | question {s s' s'' : σ} {answer : Option Bytes} {answers : List (Option Bytes)}
      (hnext : next s = (answer, s')) (rest : Hears next s' answers s'') :
      Hears next s (answer :: answers) s''

theorem Hears.append {answers answers' : List (Option Bytes)} (h : Hears next s answers s')
    (h' : Hears next s' answers' s'') : Hears next s (answers ++ answers') s'' := by
  induction h with
  | silence s => exact h'
  | question hnext _ ih => exact .question hnext (ih h')

/-- A state that has no record and stays as it is never has one. -/
theorem Hears.of_next_eq_none {answers : List (Option Bytes)} (hnone : next s = (none, s))
    (h : Hears next s answers s') : s' = s ∧ ∀ answer ∈ answers, answer = none := by
  induction h with
  | silence s => exact ⟨rfl, by simp⟩
  | question hnext _ ih =>
    rw [hnone] at hnext
    cases hnext
    obtain ⟨hlast, hanswers⟩ := ih hnone
    exact ⟨hlast, by simpa using hanswers⟩

end Hears

/-- The answers to so many questions where these records are left: each record in turn,
    then nothing. -/
def hearing (records : List Bytes) (questions : Nat) : List (Option Bytes) :=
  (records.take questions).map some ++ List.replicate (questions - records.length) none

theorem hearing_succ (records : List Bytes) (questions : Nat) :
    hearing records (questions + 1) = records.head? :: hearing records.tail questions := by
  cases records with
  | nil => simp [hearing, List.replicate_succ]
  | cons record records => simp [hearing]

theorem reduceOption_hearing (records : List Bytes) (questions : Nat) :
    (hearing records questions).reduceOption = records.take questions := by
  rw [hearing, List.reduceOption_append, List.reduceOption_replicate_none, List.append_nil]
  simp [List.reduceOption]

theorem none_mem_hearing {records : List Bytes} {questions : Nat} :
    none ∈ hearing records questions ↔ records.length < questions := by
  have hrecords : none ∉ (records.take questions).map some := by
    intro hmem
    obtain ⟨record, _, hrecord⟩ := List.mem_map.1 hmem
    cases hrecord
  rw [hearing, List.mem_append, or_iff_right hrecords, List.mem_replicate]
  simp [Nat.sub_ne_zero_iff_lt]

/-! ### Questions put to a window -/

namespace Window

variable {content : Bytes} {strip : Bool} {w w' : Window}

theorem Reads.next_eq_head? (h : w.Reads content) (strip : Bool) :
    ∃ w', w.next strip = ((recordsOf strip w.ahead).head?, w') ∧ w'.Reads content ∧
      ∀ strip', recordsOf strip' w'.ahead = (recordsOf strip' w.ahead).tail := by
  by_cases hahead : w.ahead = []
  · refine ⟨w, ?_, h, ?_⟩
    · rw [h.next_eq_none strip hahead, hahead, recordsOf_nil]
      rfl
    · intro strip'
      rw [hahead, recordsOf_nil]
      rfl
  · refine ⟨w.advance (firstLength w.ahead), ?_, h.advance (firstLength_le w.ahead), ?_⟩
    · rw [h.next_eq_some strip hahead, recordsOf_of_ne_nil strip hahead]
      rfl
    · intro strip'
      rw [recordsOf_of_ne_nil strip' hahead]
      rfl

/-- **What a window answers depends on the number of questions alone**, and so does what
    is ahead of it afterwards, newlines kept or not. -/
theorem Reads.hears {answers : List (Option Bytes)} (h : w.Reads content)
    (hhears : Hears (Window.next strip) w answers w') :
    w'.Reads content ∧ answers = hearing (recordsOf strip w.ahead) answers.length ∧
      ∀ strip', recordsOf strip' w'.ahead = (recordsOf strip' w.ahead).drop answers.length := by
  induction hhears with
  | silence w =>
    refine ⟨h, ?_, fun strip' => rfl⟩
    simp [hearing]
  | question hnext _ ih =>
    obtain ⟨w₁, hnext', hreads, htail⟩ := h.next_eq_head? strip
    obtain ⟨rfl, rfl⟩ := Prod.mk.inj (hnext'.symm.trans hnext)
    obtain ⟨hlast, hanswers, hdrop⟩ := ih hreads
    refine ⟨hlast, ?_, ?_⟩
    · rw [List.length_cons, hearing_succ, ← htail strip, ← hanswers]
    · intro strip'
      rw [hdrop strip', htail strip', List.length_cons, List.drop_tail]

/-- A window that has answered once without a record always will. -/
theorem Reads.next_eq_none_of_mem {answers : List (Option Bytes)} (h : w.Reads content)
    (hhears : Hears (Window.next strip) w answers w') (hnone : none ∈ answers) :
    w'.next strip = (none, w') := by
  obtain ⟨hlast, hanswers, hdrop⟩ := h.hears hhears
  rw [hanswers, none_mem_hearing] at hnone
  have hrecords : recordsOf strip w'.ahead = [] := by
    rw [hdrop strip, List.drop_of_length_le (Nat.le_of_lt hnone)]
  exact hlast.next_eq_none strip (recordsOf_eq_nil.1 hrecords)

theorem Reads.reduceOption_of_hears {answers : List (Option Bytes)} (h : w.Reads content)
    (hhears : Hears (Window.next strip) w answers w') :
    answers.reduceOption = (recordsOf strip w.ahead).take answers.length := by
  obtain ⟨_, hanswers, _⟩ := h.hears hhears
  rw [hanswers, reduceOption_hearing, ← hanswers]

/-- Answers with one among them that has no record hold all the records. -/
theorem Reads.reduceOption_of_none_mem {answers : List (Option Bytes)} (h : w.Reads content)
    (hhears : Hears (Window.next strip) w answers w') (hnone : none ∈ answers) :
    answers.reduceOption = recordsOf strip w.ahead := by
  obtain ⟨_, hanswers, _⟩ := h.hears hhears
  rw [hanswers, none_mem_hearing] at hnone
  rw [h.reduceOption_of_hears hhears, List.take_of_length_le (Nat.le_of_lt hnone)]

/-- What is ahead afterwards is what follows the records delivered, each counted with
    its newline. -/
theorem Reads.flatten_append_ahead {answers : List (Option Bytes)} (h : w.Reads content)
    (hhears : Hears (Window.next strip) w answers w') :
    ((recordsOf false w.ahead).take answers.reduceOption.length).flatten ++ w'.ahead =
      w.ahead := by
  obtain ⟨_, _, hdrop⟩ := h.hears hhears
  have hlength : (recordsOf strip w.ahead).length = (recordsOf false w.ahead).length := by
    rw [length_recordsOf, length_recordsOf]
  have htake : (recordsOf false w.ahead).take answers.reduceOption.length =
      (recordsOf false w.ahead).take answers.length := by
    rw [h.reduceOption_of_hears hhears, List.length_take, hlength, ← List.take_eq_take_min]
  calc ((recordsOf false w.ahead).take answers.reduceOption.length).flatten ++ w'.ahead
      = ((recordsOf false w.ahead).take answers.length).flatten ++
          (recordsOf false w'.ahead).flatten := by
        rw [htake, (isCut_recordsOf w'.ahead).flatten_eq]
    _ = (recordsOf false w.ahead).flatten := by
        rw [hdrop false, ← List.flatten_append, List.take_append_drop]
    _ = w.ahead := (isCut_recordsOf w.ahead).flatten_eq

theorem hears_takeFrom (strip : Bool) (cut : List Bytes) (n : Nat) (w : Window) :
    ∃ records w', takeFrom strip cut n w = (cut.reverse ++ records, w') ∧
      Hears (Window.next strip) w
        (records.map some ++ if records.length < n then [none] else []) w' := by
  induction n generalizing cut w with
  | zero => exact ⟨[], w, by rw [takeFrom, List.append_nil], .silence w⟩
  | succ n ih =>
    rcases hnext : w.next strip with ⟨_ | record, w₁⟩
    · refine ⟨[], w₁, ?_, .question hnext (.silence w₁)⟩
      rw [takeFrom, hnext, List.append_nil]
    · obtain ⟨records, w', htake, hhears⟩ := ih (record :: cut) w₁
      refine ⟨record :: records, w', ?_, .question hnext ?_⟩
      · rw [takeFrom, hnext]
        simpa using htake
      · simpa using hhears

/-- A drain ends at a question that has no record. -/
theorem Reads.hears_drain (h : w.Reads content) (strip : Bool) :
    ∃ records w', w.drain strip = (records, w') ∧
      Hears (Window.next strip) w (records.map some ++ [none]) w' := by
  obtain ⟨records, w', htake, hhears⟩ :=
    hears_takeFrom strip [] (w.cursor.left + 1) w
  obtain ⟨_, hdrain, _⟩ := h.drain strip
  have hrecords : records = recordsOf strip w.ahead :=
    congrArg Prod.fst (htake.symm.trans hdrain)
  have hlength : records.length < w.cursor.left + 1 := by
    rw [hrecords, h.left_eq]
    exact Nat.lt_succ_of_le (length_recordsOf_le strip w.ahead)
  rw [if_pos hlength] at hhears
  exact ⟨records, w', htake, hhears⟩

end Window

theorem Lines.hears_ask (lines : Lines) (questions : Nat) :
    (lines.ask questions).2.strips = lines.strips ∧
      Hears (Window.next lines.strips) lines.window (lines.ask questions).1
        (lines.ask questions).2.window := by
  induction questions generalizing lines with
  | zero => exact ⟨rfl, .silence lines.window⟩
  | succ questions ih =>
    obtain ⟨hstrips, hhears⟩ := ih lines.next.2
    exact ⟨hstrips, .question rfl hhears⟩

/-- An iteration asked once for each answer gives the answers. -/
theorem Hears.ask_eq {strip : Bool} {w w' : Window} {answers : List (Option Bytes)}
    (h : Hears (Window.next strip) w answers w') :
    (Lines.mk w strip).ask answers.length = (answers, ⟨w', strip⟩) := by
  induction h with
  | silence w => rfl
  | question hnext _ ih => simp [Lines.ask, Lines.next, hnext, ih]

theorem Lines.ask_of_next_eq_none {lines : Lines} (hnext : lines.next = (none, lines))
    (questions : Nat) : lines.ask questions = (List.replicate questions none, lines) := by
  induction questions with
  | zero => rfl
  | succ questions ih => simp [Lines.ask, hnext, ih, List.replicate_succ]

/-! ### Questions put to a source -/

namespace LineSource

/-- What was heard from a call, question by question.  Records taken in one go that fall
    short of the number asked for ended at a question that had no record. -/
def Call.heard : Call → Answer → List (Option Bytes)
  | _, .record record => [record]
  | _, .asked records => records
  | .take n, .records records => records.map some ++ if records.length < n then [none] else []
  | .drain, .records records => records.map some ++ [none]
  | _, _ => []

def heard (source : LineSource) (host : Host) (calls : List Call) : List (Option Bytes) :=
  (List.zipWith Call.heard calls (source.answers host calls)).flatten

def afterAll (source : LineSource) (host : Host) : List Call → LineSource × Host
  | [] => (source, host)
  | call :: calls => (source.after host call).1.afterAll (source.after host call).2 calls

theorem heard_cons (source : LineSource) (host : Host) (call : Call) (calls : List Call) :
    source.heard host (call :: calls) =
      call.heard (source.answer host call) ++
        (source.after host call).1.heard (source.after host call).2 calls := rfl

theorem afterAll_cons (source : LineSource) (host : Host) (call : Call) (calls : List Call) :
    source.afterAll host (call :: calls) =
      (source.after host call).1.afterAll (source.after host call).2 calls := rfl

theorem heard_append (source : LineSource) (host : Host) (calls later : List Call) :
    source.heard host (calls ++ later) = source.heard host calls ++
      (source.afterAll host calls).1.heard (source.afterAll host calls).2 later := by
  induction calls generalizing source host with
  | nil => rfl
  | cons call calls ih => simp [heard_cons, afterAll_cons, ih]

theorem none_mem_heard_drain (source : LineSource) (host : Host) :
    none ∈ source.heard host [.drain] := by
  have hdrain : source.heard host [.drain] = source.lines.drain.1.map some ++ [none] ++ [] := rfl
  simp [hdrain]

theorem Alike.afterAll {s t : LineSource} {g h : Host} (halike : Alike s t g h)
    (calls : List Call) :
    Alike (s.afterAll g calls).1 (t.afterAll h calls).1 (s.afterAll g calls).2
      (t.afterAll h calls).2 := by
  induction calls generalizing s t g h with
  | nil => exact halike
  | cons call calls ih => exact ih (halike.after call)

section Calls

variable {content : Bytes} {source : LineSource} {store : Store}

/-- A call asks the window of the source as often as it is heard, and changes nothing
    else of the source. -/
theorem hears_call
    (hnext : source.next = ((source.window.next source.strips).1,
      { source with window := (source.window.next source.strips).2 }))
    (hreads : source.window.Reads content) (host : Host) {call : Call} (hcall : call ≠ .release) :
    ∃ window, (source.after host call).1 = { source with window := window } ∧
      Hears (Window.next source.strips) source.window (call.heard (source.answer host call))
        window := by
  cases call with
  | next asReader =>
    refine ⟨(source.window.next source.strips).2, ?_, ?_⟩
    · cases asReader <;> exact congrArg Prod.snd hnext
    · have hrecord : (Call.next asReader).heard (source.answer host (.next asReader)) =
          [(source.window.next source.strips).1] := by
        cases asReader <;> exact congrArg (fun step => [step.1]) hnext
      rw [hrecord]
      exact .question rfl (.silence _)
  | ask questions => exact ⟨_, rfl, (source.lines.hears_ask questions).2⟩
  | take n =>
    obtain ⟨records, window, htake, hhears⟩ :=
      Window.hears_takeFrom source.strips [] n source.window
    refine ⟨window, ?_, ?_⟩
    · exact congrArg (fun taken : List Bytes × Window => { source with window := taken.2 }) htake
    · have hrecords : source.answer host (.take n) = .records records :=
        congrArg (fun taken : List Bytes × Window => Answer.records taken.1) htake
      rw [hrecords]
      exact hhears
  | drain =>
    obtain ⟨records, window, hdrain, hhears⟩ := hreads.hears_drain source.strips
    refine ⟨window, ?_, ?_⟩
    · exact congrArg (fun drained : List Bytes × Window => { source with window := drained.2 })
        hdrain
    · have hrecords : source.answer host .drain = .records records :=
        congrArg (fun drained : List Bytes × Window => Answer.records drained.1) hdrain
      rw [hrecords]
      exact hhears
  | mtime asReader => cases asReader <;> exact ⟨source.window, rfl, .silence source.window⟩
  | release => exact absurd rfl hcall
  | _ => exact ⟨source.window, rfl, .silence source.window⟩

/-- **Calls made in order are questions put to one window.** -/
theorem hears_calls (hstore : source.store = some store) (hreads : source.window.Reads content)
    (host : Host) {calls : List Call} (hcalls : .release ∉ calls) :
    ∃ window, (source.afterAll host calls).1 = { source with window := window } ∧
      Hears (Window.next source.strips) source.window (source.heard host calls) window := by
  induction calls generalizing source host with
  | nil => exact ⟨source.window, rfl, .silence source.window⟩
  | cons call calls ih =>
    obtain ⟨hcall, hrest⟩ := not_or.1 (mt List.mem_cons.2 hcalls)
    obtain ⟨window, hafter, hhears⟩ :=
      hears_call (next_of_store hstore) hreads host (Ne.symm hcall)
    rcases hstep : source.after host call with ⟨source', host'⟩
    rw [hstep] at hafter
    dsimp only at hafter
    subst hafter
    have hstore' : ({ source with window := window } : LineSource).store = some store := hstore
    obtain ⟨window', hafterAll, hhears'⟩ := ih hstore' (hreads.hears hhears).1 host' hrest
    refine ⟨window', ?_, ?_⟩
    · rw [afterAll, hstep]
      exact hafterAll
    · rw [heard_cons, hstep]
      exact hhears.append hhears'

end Calls

/-- What calls made in order come to where all of them share one position. -/
structure SharesPosition (source : LineSource) (host : Host) (calls : List Call) : Prop where
  /-- The records delivered are the first of those that one iteration would deliver. -/
  delivered : ∃ records lines, Delivers Lines.next source.lines records lines ∧
    (source.heard host calls).reduceOption <+: records
  /-- What remains is what follows them, their newlines counted as delivered. -/
  remaining : ∃ cut, IsCut source.remaining cut ∧
    (cut.take (source.heard host calls).reduceOption.length).flatten ++
      (source.afterAll host calls).1.remaining = source.remaining
  /-- After an answer without a record there is no record. -/
  ended : ∃ questions, source.heard host calls =
    (source.heard host calls).reduceOption.map some ++ List.replicate questions none
  /-- Nor do later calls have any or change the source. -/
  still : none ∈ source.heard host calls → ∀ later, .release ∉ later →
    ((source.afterAll host calls).1.afterAll (source.afterAll host calls).2 later).1 =
        (source.afterAll host calls).1 ∧
      ∀ answer ∈ (source.afterAll host calls).1.heard (source.afterAll host calls).2 later,
        answer = none
  /-- An iteration that has ended stays as it is when it is asked again. -/
  linesStill : ∀ questions, none ∈ (source.lines.ask questions).1 →
    (source.lines.ask questions).2.next = (none, (source.lines.ask questions).2)

theorem sharesPosition {content : Bytes} {source : LineSource} {store : Store}
    (hstore : source.store = some store) (hreads : source.window.Reads content) (host : Host)
    {calls : List Call} (hcalls : .release ∉ calls) : source.SharesPosition host calls := by
  obtain ⟨window, hafter, hhears⟩ := hears_calls hstore hreads host hcalls
  have hdelivered := hreads.reduceOption_of_hears hhears
  refine ⟨?_, ?_, ?_, ?_, ?_⟩
  · obtain ⟨lines, hlines⟩ := Lines.delivers source.lines hreads
    refine ⟨_, lines, hlines, ?_⟩
    rw [hdelivered]
    exact List.take_prefix _ _
  · refine ⟨recordsOf false source.remaining, isCut_recordsOf source.remaining, ?_⟩
    rw [hafter]
    exact hreads.flatten_append_ahead hhears
  · obtain ⟨_, hanswers, _⟩ := hreads.hears hhears
    rw [hdelivered]
    exact ⟨_, hanswers⟩
  · intro hnone later hlater
    rw [hafter]
    have hstore' : ({ source with window := window } : LineSource).store = some store := hstore
    obtain ⟨window', hafter', hhears'⟩ :=
      hears_calls hstore' (hreads.hears hhears).1 (source.afterAll host calls).2 hlater
    obtain ⟨rfl, hanswers⟩ :=
      hhears'.of_next_eq_none (hreads.next_eq_none_of_mem hhears hnone)
    exact ⟨hafter', hanswers⟩
  · intro questions hnone
    obtain ⟨hstrips, hasked⟩ := source.lines.hears_ask questions
    have hnext := hreads.next_eq_none_of_mem hasked hnone
    rw [Lines.next, hstrips, hnext, ← hstrips]

end LineSource

/-- **The entry points of a source share one position.**  However the calls on an opened
    source are interleaved, from the start or after any others, they deliver the records
    that one iteration would, leave what follows them, and end for good at the first
    answer without a record. -/
theorem openLines_sharesPosition {lookup : Lookup} {path : Bytes} {options : LineOptions}
    {host host' : Host} {source : LineSource}
    (hopened : openLines lookup path options host = (.ok (.source source), host'))
    {before calls : List LineSource.Call} (hbefore : .release ∉ before)
    (hcalls : .release ∉ calls) :
    ∃ target report content, Finds lookup path target report ∧
      (Purpose.lines options.threshold).fetch path target report.size = .ok content ∧
      source.remaining = content ∧
      (source.afterAll host' before).1.SharesPosition (source.afterAll host' before).2 calls := by
  obtain ⟨target, report, store, hfinds, hfetch, rfl⟩ := exists_start_of_openLines_eq hopened
  have hreads := LineSource.reads_start options report.mtime path store
  obtain ⟨window, hafter, hhears⟩ := LineSource.hears_calls rfl hreads host' hbefore
  refine ⟨target, report, store.content, hfinds, hfetch, rfl, ?_⟩
  rw [hafter]
  exact LineSource.sharesPosition rfl (hreads.hears hhears).1 _ hcalls

theorem openLines_sharesPosition_blankLine :
    ∃ source host', openLines (.everywhere [0x61, newline, newline, 0x62] (.ofSeconds 0))
          [0x66] ⟨true, .raise, ⟨0⟩, 0⟩ {} = (.ok (.source source), host') ∧
      source.remaining = [0x61, newline, newline, 0x62] ∧
      (source.afterAll host' [.next false]).1.SharesPosition
        (source.afterAll host' [.next false]).2 [.ask 1, .length, .next true, .take 5] ∧
      (source.afterAll host' [.next false]).1.heard (source.afterAll host' [.next false]).2
        [.ask 1, .length, .next true, .take 5] = [some [], some [0x62], none] := by
  have hopened : openLines (.everywhere [0x61, newline, newline, 0x62] (.ofSeconds 0)) [0x66]
      ⟨true, .raise, ⟨0⟩, 0⟩ {} = _ :=
    openLines_mapped (.file (by decide) rfl) (by decide) (Purpose.fetch_file _ _ _ _) {}
  obtain ⟨_, _, _, _, _, _, hshares⟩ := @openLines_sharesPosition _ _ _ _ _ _ hopened [.next false]
    [.ask 1, .length, .next true, .take 5] (by decide) (by decide)
  exact ⟨_, _, hopened, rfl, hshares, rfl⟩

end FileAccess
