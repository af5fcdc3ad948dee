/-
  FileAccess/Proofs/Lines/Calls.lean
  ==================================
  **A life of calls on a line source, however its bytes are kept.**

  `LineSource.Call` lists what a caller can ask of a source, and `LineSource.answers`
  gives the answers to calls made in order.  A format set in between is a call too,
  because it is seen through the source's modification time.

  Two sources that differ at most in how their bytes are kept are `Alike`.  Each call
  keeps two alike sources alike and answers the same of both, unless it asks whether
  the bytes are mapped; so does a list of calls.  The threshold given to `openLines`
  decides only how the bytes are kept, hence it decides no other answer.
-/
import FileAccess.Proofs.Lines.Opening

namespace FileAccess

/-! ### Calls -/

def Lines.ask (lines : Lines) : Nat → List (Option Bytes) × Lines
  | 0 => ([], lines)
  | n + 1 =>
    let (record, lines) := lines.next
    let (records, lines) := lines.ask n
    (record :: records, lines)

namespace LineSource

/-- What can be asked of a source, `asReader` through what it has in common with the
    empty sequence.  A release leaves a source that can still be asked. -/
inductive Call where
  | next (asReader : Bool)
  | ask (questions : Nat)
  | take (n : Nat)
  | drain
  | remaining
  | cursor
  | length
  | isEmpty
  | isMapped
  | strips
  | rawMtime
  | mtime (asReader : Bool)
  | path
  | release
  | setFormat (preferences : Preferences) (format : Timestamp.Format)
deriving DecidableEq

inductive Answer where
  | record (record : Option Bytes)
  | asked (records : List (Option Bytes))
  | records (records : List Bytes)
  | bytes (bytes : Bytes)
  | cursor (cursor : Cursor)
  | size (size : Nat)
  | truth (value : Bool)
  | rawMtime (mtime : Timestamp)
  | mtime (value : Option Timestamp.Value)
  | done
deriving DecidableEq

def answer (source : LineSource) (host : Host) : Call → Answer
  | .next false => .record source.next.1
  | .next true => .record (Reader.source source).next.1
  | .ask questions => .asked (source.lines.ask questions).1
  | .take n => .records (source.lines.take n).1
  | .drain => .records source.lines.drain.1
  | .remaining => .bytes source.remaining
  | .cursor => .cursor source.window.cursor
  | .length => .size source.length
  | .isEmpty => .truth source.isEmpty
  | .isMapped => .truth source.isMapped
  | .strips => .truth source.strips
  | .rawMtime => .rawMtime source.rawMtime
  | .mtime false => .mtime (some (source.mtime host))
  | .mtime true => .mtime ((Reader.source source).mtime? host)
  | .path => .bytes source.path
  | .release => .done
  | .setFormat _ _ => .done

/-- The source behind a reader, which is the one it was made of unless it is empty. -/
def ofReader (source : LineSource) : Reader → LineSource
  | .source source' => source'
  | .empty => source

def after (source : LineSource) (host : Host) : Call → LineSource × Host
  | .next false => (source.next.2, host)
  | .next true => (source.ofReader (Reader.source source).next.2, host)
  | .ask questions => (source.resume (source.lines.ask questions).2, host)
  | .take n => (source.resume (source.lines.take n).2, host)
  | .drain => (source.resume source.lines.drain.2, host)
  | .release => source.release host
  | .setFormat preferences format => (source, preferences.setFormat format host)
  | _ => (source, host)

def answers (source : LineSource) (host : Host) : List Call → List Answer
  | [] => []
  | call :: calls =>
    source.answer host call ::
      (source.after host call).1.answers (source.after host call).2 calls

/-! ### Alike sources -/

/-- Two sources, each with its host, that differ at most in how the bytes are kept. -/
structure Alike (s t : LineSource) (g h : Host) : Prop where
  store_isSome : s.store.isSome = t.store.isSome
  window_eq : s.window = t.window
  strips_eq : s.strips = t.strips
  rawMtime_eq : s.rawMtime = t.rawMtime
  preferences_eq : s.preferences = t.preferences
  path_eq : s.path = t.path
  cells_eq : g.cells = h.cells

theorem Store.release_cells (store : Store) (host : Host) :
    (store.release host).cells = host.cells := by
  cases store <;> rfl

namespace Alike

variable {s t : LineSource} {g h : Host}

theorem lines_eq (halike : Alike s t g h) : s.lines = t.lines := by
  rw [LineSource.lines, LineSource.lines, halike.window_eq, halike.strips_eq]

theorem resume (halike : Alike s t g h) (lines : Lines) :
    Alike (s.resume lines) (t.resume lines) g h :=
  { halike with window_eq := rfl }

theorem stores (halike : Alike s t g h) :
    (s.store = none ∧ t.store = none) ∨ ∃ a b, s.store = some a ∧ t.store = some b := by
  have hstore := halike.store_isSome
  cases hs : s.store with
  | none =>
    rw [hs] at hstore
    exact Or.inl ⟨rfl, Option.isNone_iff_eq_none.1 (Option.isSome_eq_false_iff.1 hstore.symm)⟩
  | some a =>
    rw [hs] at hstore
    obtain ⟨b, ht⟩ := Option.isSome_iff_exists.1 hstore.symm
    exact Or.inr ⟨a, b, rfl, ht⟩

theorem next (halike : Alike s t g h) :
    s.next.1 = t.next.1 ∧ Alike s.next.2 t.next.2 g h := by
  rcases halike.stores with ⟨hs, ht⟩ | ⟨a, b, hs, ht⟩
  · rw [LineSource.next, LineSource.next, hs, ht]
    exact ⟨rfl, halike⟩
  · have hwindow : s.window.next s.strips = t.window.next t.strips := by
      rw [halike.window_eq, halike.strips_eq]
    rw [next_of_store hs, next_of_store ht, hwindow]
    exact ⟨rfl, { halike with window_eq := rfl }⟩

theorem release (halike : Alike s t g h) :
    Alike (s.release g).1 (t.release h).1 (s.release g).2 (t.release h).2 := by
  rcases halike.stores with ⟨hs, ht⟩ | ⟨a, b, hs, ht⟩
  · rw [LineSource.release, LineSource.release, hs, ht]
    exact halike
  · rw [LineSource.release, LineSource.release, hs, ht]
    exact { halike with
      store_isSome := rfl
      window_eq := congrArg Window.giveUp halike.window_eq
      cells_eq := by rw [Store.release_cells, Store.release_cells, halike.cells_eq] }

theorem length_eq (halike : Alike s t g h) : s.length = t.length := by
  rw [LineSource.length, LineSource.length, halike.window_eq]

theorem setFormat (halike : Alike s t g h) (preferences : Preferences)
    (format : Timestamp.Format) :
    Alike s t (preferences.setFormat format g) (preferences.setFormat format h) :=
  { halike with
    cells_eq := congrArg (fun cells => cells.set preferences.cell format) halike.cells_eq }

theorem mtime_eq (halike : Alike s t g h) : s.mtime g = t.mtime h := by
  rw [LineSource.mtime, LineSource.mtime, Preferences.render, Preferences.render,
    Preferences.format, Preferences.format, halike.preferences_eq, halike.rawMtime_eq,
    halike.cells_eq]

theorem answer_eq (halike : Alike s t g h) {call : Call} (hcall : call ≠ .isMapped) :
    s.answer g call = t.answer h call := by
  cases call with
  | next asReader => cases asReader <;> exact congrArg Answer.record halike.next.1
  | ask questions => rw [answer, answer, halike.lines_eq]
  | take n => rw [answer, answer, halike.lines_eq]
  | drain => rw [answer, answer, halike.lines_eq]
  | remaining =>
    rw [answer, answer, LineSource.remaining, LineSource.remaining, halike.window_eq]
  | cursor => rw [answer, answer, halike.window_eq]
  | length => rw [answer, answer, halike.length_eq]
  | isEmpty => rw [answer, answer, LineSource.isEmpty, LineSource.isEmpty, halike.length_eq]
  | isMapped => exact absurd rfl hcall
  | strips => rw [answer, answer, halike.strips_eq]
  | rawMtime => rw [answer, answer, halike.rawMtime_eq]
  | mtime asReader =>
    cases asReader with
    | false => rw [answer, answer, halike.mtime_eq]
    | true => rw [answer, answer, Reader.mtime?, Reader.mtime?, halike.mtime_eq]
  | path => rw [answer, answer, halike.path_eq]
  | release => rfl
  | setFormat preferences format => rfl

theorem after (halike : Alike s t g h) (call : Call) :
    Alike (s.after g call).1 (t.after h call).1 (s.after g call).2 (t.after h call).2 := by
  cases call with
  | next asReader => cases asReader <;> exact halike.next.2
  | ask questions =>
    rw [LineSource.after, LineSource.after, halike.lines_eq]
    exact halike.resume _
  | take n =>
    rw [LineSource.after, LineSource.after, halike.lines_eq]
    exact halike.resume _
  | drain =>
    rw [LineSource.after, LineSource.after, halike.lines_eq]
    exact halike.resume _
  | release => exact halike.release
  | setFormat preferences format => exact halike.setFormat preferences format
  -- the other calls leave the source and the host as they are
  | _ => exact halike

theorem answers_eq (halike : Alike s t g h) (calls : List Call) (i : Nat)
    (hcall : calls[i]? ≠ some .isMapped) : (s.answers g calls)[i]? = (t.answers h calls)[i]? := by
  induction calls generalizing s t g h i with
  | nil => rfl
  | cons call calls ih =>
    cases i with
    | zero =>
      have hne : call ≠ .isMapped := by
        rintro rfl
        exact hcall rfl
      exact congrArg some (halike.answer_eq hne)
    | succ i => exact ih (halike.after call) i hcall

end Alike

/-! ### How the bytes are kept -/

theorem isMapped_next (source : LineSource) : source.next.2.isMapped = source.isMapped := by
  cases hstore : source.store with
  | none => rw [next, hstore]
  | some store => rw [next_of_store hstore, isMapped, isMapped]

theorem isMapped_release (source : LineSource) (host : Host) :
    (source.release host).1.isMapped = false := by
  cases hstore : source.store with
  | none =>
    rw [release, hstore, isMapped, hstore]
    rfl
  | some store =>
    rw [release, hstore]
    rfl

/-- The bytes stay as they are kept until the source is released. -/
theorem isMapped_after (source : LineSource) (host : Host) (call : Call) :
    (source.after host call).1.isMapped = (source.isMapped && decide (call ≠ .release)) := by
  cases call with
  | next asReader =>
    rw [decide_eq_true (by simp), Bool.and_true]
    cases asReader <;> exact source.isMapped_next
  | release =>
    rw [decide_eq_false (by simp), Bool.and_false]
    exact source.isMapped_release host
  | _ =>
    rw [decide_eq_true (by simp), Bool.and_true]
    rfl

theorem answers_isMapped (source : LineSource) (host : Host) (calls : List Call) (i : Nat)
    (hcall : calls[i]? = some .isMapped) :
    (source.answers host calls)[i]? =
      some (.truth (source.isMapped && decide (.release ∉ calls.take i))) := by
  induction calls generalizing source host i with
  | nil => cases hcall
  | cons call calls ih =>
    cases i with
    | zero =>
      obtain rfl : call = .isMapped := Option.some.inj hcall
      exact congrArg (some <| Answer.truth ·) (Bool.and_true _).symm
    | succ i =>
      have hrest := ih (source.after host call).1 (source.after host call).2 i hcall
      have hreleased : decide (.release ∉ call :: calls.take i) =
          (decide (call ≠ .release) && decide (.release ∉ calls.take i)) := by
        rw [← Bool.decide_and]
        simp [eq_comm]
      rw [isMapped_after, Bool.and_assoc] at hrest
      rw [List.take_succ_cons, hreleased]
      exact hrest

/-- Alike sources that keep their bytes the same way answer everything the same. -/
theorem Alike.answers_eq_of_isMapped {s t : LineSource} {g h : Host} (halike : Alike s t g h)
    (hmapped : s.isMapped = t.isMapped) (calls : List Call) :
    s.answers g calls = t.answers h calls := by
  apply List.ext_getElem?
  intro i
  by_cases hcall : calls[i]? = some .isMapped
  · rw [s.answers_isMapped g calls i hcall, t.answers_isMapped h calls i hcall, hmapped]
  · exact halike.answers_eq calls i hcall

end LineSource

/-- Two thresholds make no difference to any answer but the one that says whether the
    bytes are mapped, and that one says whether the size reaches the threshold. -/
theorem openLines_answers_threshold {lookup : Lookup} {path content : Bytes}
    {mtime : Timestamp} (hpath : path ≠ [])
    (hopen : lookup.open? path = .ok (.file content mtime)) (options : LineOptions) (host : Host)
    (threshold threshold' : Nat) :
    ∃ s g t h,
      openLines lookup path { options with threshold := threshold } host =
        (.ok (.source s), g) ∧
      openLines lookup path { options with threshold := threshold' } host =
        (.ok (.source t), h) ∧
      ∀ (calls : List LineSource.Call) (i : Nat),
        (calls[i]? ≠ some .isMapped → (s.answers g calls)[i]? = (t.answers h calls)[i]?) ∧
        (calls[i]? = some .isMapped →
          (s.answers g calls)[i]? =
            some (.truth (decide (threshold ≤ content.length ∧ .release ∉ calls.take i))) ∧
          (t.answers h calls)[i]? =
            some (.truth (decide (threshold' ≤ content.length ∧ .release ∉ calls.take i)))) := by
  obtain ⟨a, g, hs, hcontent, hmapped, hcells⟩ :=
    exists_openLines_eq hpath hopen { options with threshold := threshold } host
  obtain ⟨b, h, ht, hcontent', hmapped', hcells'⟩ :=
    exists_openLines_eq hpath hopen { options with threshold := threshold' } host
  refine ⟨_, g, _, h, hs, ht, ?_⟩
  intro calls i
  constructor
  · have halike : LineSource.Alike (.start { options with threshold := threshold } mtime path a)
        (.start { options with threshold := threshold' } mtime path b) g h :=
      { store_isSome := rfl
        window_eq := congrArg Window.ofContent (hcontent.trans hcontent'.symm)
        strips_eq := rfl
        rawMtime_eq := rfl
        preferences_eq := rfl
        path_eq := rfl
        cells_eq := hcells.trans hcells'.symm }
    exact halike.answers_eq calls i
  · intro hcall
    rw [LineSource.answers_isMapped _ g calls i hcall,
      LineSource.answers_isMapped _ h calls i hcall, Bool.decide_and, Bool.decide_and,
      ← hmapped, ← hmapped']
    exact ⟨rfl, rfl⟩

theorem openLines_answers_threshold_boundary :
    ∃ s g t h,
      openLines (.everywhere [0x61, Bytes.newline] (.ofSeconds 0)) [0x66]
          ⟨true, .raise, ⟨0⟩, 2⟩ {} = (.ok (.source s), g) ∧
      openLines (.everywhere [0x61, Bytes.newline] (.ofSeconds 0)) [0x66]
          ⟨true, .raise, ⟨0⟩, 3⟩ {} = (.ok (.source t), h) ∧
      (s.answers g [.next false, .isMapped])[0]? = (t.answers h [.next false, .isMapped])[0]? ∧
      (s.answers g [.next false, .isMapped])[1]? = some (.truth true) ∧
      (t.answers h [.next false, .isMapped])[1]? = some (.truth false) := by
  obtain ⟨s, g, t, h, hs, ht, hanswers⟩ :=
    openLines_answers_threshold (show ([0x66] : Bytes) ≠ [] by decide)
      (show (Lookup.everywhere [0x61, Bytes.newline] (.ofSeconds 0)).open? [0x66] = _ from rfl)
      (.standard ⟨0⟩) {} 2 3
  have hnext := (hanswers [.next false, .isMapped] 0).1 (by simp)
  have hmapped := (hanswers [.next false, .isMapped] 1).2 rfl
  exact ⟨s, g, t, h, hs, ht, hnext, hmapped.1, hmapped.2⟩

end FileAccess
