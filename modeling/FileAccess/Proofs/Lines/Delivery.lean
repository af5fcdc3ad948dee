/-
  FileAccess/Proofs/Lines/Delivery.lean
  =====================================
  **What a window delivers.**

  `Window.Reads` is the invariant of a window: it stands somewhere in a content, and
  what it has ahead is the rest of that content from there.  A window that reads a
  content delivers the records of what is ahead, whether they are asked for one by
  one or many at a time, and reads the same content afterwards.

  `Delivers` is the course of asking one by one until there is no record.  It speaks
  of any state that answers such a question, so that sources, iterations and readers
  are covered by what is proved of windows.
-/
import FileAccess.Proofs.Lines.Records

namespace FileAccess

open Bytes

/-! ### Asking until there is nothing -/

section Delivers

variable {σ τ : Type} {next : σ → Option Bytes × σ}

/-- Asked again and again, the first state delivers the records and then nothing,
    which leaves the last state. -/
inductive Delivers (next : σ → Option Bytes × σ) : σ → List Bytes → σ → Prop where
  | exhausted {s s' : σ} (hnext : next s = (none, s')) : Delivers next s [] s'
  | record {s s' s'' : σ} {record : Bytes} {records : List Bytes}
      (hnext : next s = (some record, s')) (rest : Delivers next s' records s'') :
      Delivers next s (record :: records) s''

theorem Delivers.unique {s t t' : σ} {records records' : List Bytes}
    (h : Delivers next s records t) (h' : Delivers next s records' t') :
    records = records' ∧ t = t' := by
  induction h generalizing records' with
  | exhausted hnext =>
    cases h' with
    | exhausted hnext' =>
      rw [hnext] at hnext'
      exact ⟨rfl, (Prod.mk.inj hnext').2⟩
    | record hnext' rest' =>
      rw [hnext] at hnext'
      cases hnext'
  | record hnext rest ih =>
    cases h' with
    | exhausted hnext' =>
      rw [hnext] at hnext'
      cases hnext'
    | record hnext' rest' =>
      rw [hnext] at hnext'
      cases hnext'
      obtain ⟨hrecords, hlast⟩ := ih rest'
      exact ⟨congrArg _ hrecords, hlast⟩

theorem exists_delivers_iff {s : σ} {records : List Bytes} (h : ∃ t, Delivers next s records t)
    (other : List Bytes) : (∃ t, Delivers next s other t) ↔ other = records := by
  constructor
  · rintro ⟨t', hother⟩
    obtain ⟨t, hrecords⟩ := h
    exact (hother.unique hrecords).1
  · rintro rfl
    exact h

/-- A state that answers from a part of it, and keeps the rest, delivers what the part
    delivers. -/
theorem Delivers.map {next' : τ → Option Bytes × τ} (whole : σ → τ)
    (hwhole : ∀ s, next' (whole s) = ((next s).1, whole (next s).2)) {s t : σ}
    {records : List Bytes} (h : Delivers next s records t) :
    Delivers next' (whole s) records (whole t) := by
  induction h with
  | exhausted hnext =>
    refine .exhausted ?_
    rw [hwhole, hnext]
  | record hnext rest ih =>
    refine .record ?_ ih
    rw [hwhole, hnext]

end Delivers

/-! ### Windows on a content -/

namespace Window

/-- The window stands in the content and has the rest of it ahead. -/
structure Reads (content : Bytes) (w : Window) : Prop where
  start_eq : w.cursor.start = 0
  stop_eq : w.cursor.stop = content.length
  position_le : w.cursor.position ≤ content.length
  ahead_eq : w.ahead = content.drop w.cursor.position

theorem reads_ofContent (content : Bytes) : (ofContent content).Reads content :=
  ⟨rfl, rfl, Nat.zero_le _, rfl⟩

namespace Reads

variable {content : Bytes} {w : Window} (strip : Bool)

theorem left_eq (h : w.Reads content) : w.cursor.left = w.ahead.length := by
  rw [Cursor.left, h.stop_eq, h.ahead_eq, List.length_drop]

theorem isExhausted_eq (h : w.Reads content) : w.cursor.isExhausted = w.ahead.isEmpty := by
  have hposition := h.position_le
  have hlength : w.ahead.length = content.length - w.cursor.position := by
    rw [h.ahead_eq, List.length_drop]
  rw [Cursor.isExhausted, h.stop_eq, Bool.eq_iff_iff, beq_iff_eq, List.isEmpty_iff_length_eq_zero]
  omega

theorem advance (h : w.Reads content) {n : Nat} (hn : n ≤ w.ahead.length) :
    (w.advance n).Reads content := by
  have hposition := h.position_le
  rw [h.ahead_eq, List.length_drop] at hn
  refine ⟨h.start_eq, h.stop_eq, ?_, ?_⟩
  · show w.cursor.position + n ≤ content.length
    omega
  · show w.ahead.drop n = content.drop (w.cursor.position + n)
    rw [h.ahead_eq, List.drop_drop]

theorem giveUp (h : w.Reads content) : w.giveUp.Reads content := by
  refine ⟨h.start_eq, h.stop_eq, Nat.le_of_eq h.stop_eq, ?_⟩
  show [] = content.drop w.cursor.stop
  rw [h.stop_eq, List.drop_length]

theorem next_eq_none (h : w.Reads content) (hahead : w.ahead = []) :
    w.next strip = (none, w) := by
  rw [Window.next, h.isExhausted_eq, hahead]
  rfl

theorem next_eq_some (h : w.Reads content) (hahead : w.ahead ≠ []) :
    w.next strip = (some (firstRecord strip w.ahead), w.advance (firstLength w.ahead)) := by
  have hexhausted : w.cursor.isExhausted = false := by
    rw [h.isExhausted_eq, List.isEmpty_eq_false_iff]
    exact hahead
  rw [Window.next, hexhausted]
  rfl

theorem next (h : w.Reads content) : (w.next strip).2.Reads content := by
  by_cases hahead : w.ahead = []
  · rw [h.next_eq_none strip hahead]
    exact h
  · rw [h.next_eq_some strip hahead]
    exact h.advance (firstLength_le w.ahead)

theorem next_of_recordsOf_eq_cons (h : w.Reads content) {record : Bytes} {records : List Bytes}
    (hrecords : recordsOf strip w.ahead = record :: records) :
    ∃ w', w.next strip = (some record, w') ∧ w'.Reads content ∧
      recordsOf strip w'.ahead = records := by
  have hahead : w.ahead ≠ [] := by
    intro hahead
    rw [hahead, recordsOf_nil] at hrecords
    cases hrecords
  rw [recordsOf_of_ne_nil strip hahead] at hrecords
  cases hrecords
  exact ⟨_, h.next_eq_some strip hahead, h.advance (firstLength_le w.ahead), rfl⟩

theorem delivers (h : w.Reads content) :
    ∃ w', Delivers (Window.next strip) w (recordsOf strip w.ahead) w' ∧ w'.Reads content ∧
      w'.ahead = [] := by
  -- by the records ahead: a question takes the first, and none are left at the end
  induction hrecords : recordsOf strip w.ahead generalizing w with
  | nil =>
    have hahead := recordsOf_eq_nil.1 hrecords
    exact ⟨w, .exhausted (h.next_eq_none strip hahead), h, hahead⟩
  | cons record records ih =>
    obtain ⟨next, hnext, hreads, hrest⟩ := h.next_of_recordsOf_eq_cons strip hrecords
    obtain ⟨last, hdelivers, hlast⟩ := ih hreads hrest
    exact ⟨last, .record hnext hdelivers, hlast⟩

theorem takeFrom (h : w.Reads content) (cut : List Bytes) (n : Nat) :
    ∃ w', takeFrom strip cut n w = (cut.reverse ++ (recordsOf strip w.ahead).take n, w') ∧
      w'.Reads content ∧ recordsOf strip w'.ahead = (recordsOf strip w.ahead).drop n := by
  induction n generalizing w cut with
  | zero => exact ⟨w, by rw [Window.takeFrom, List.take_zero, List.append_nil], h, rfl⟩
  | succ n ih =>
    cases hrecords : recordsOf strip w.ahead with
    | nil =>
      have hnext := h.next_eq_none strip (recordsOf_eq_nil.1 hrecords)
      refine ⟨w, ?_, h, hrecords⟩
      rw [Window.takeFrom, hnext, List.take_nil, List.append_nil]
    | cons record records =>
      obtain ⟨next, hnext, hreads, hrest⟩ := h.next_of_recordsOf_eq_cons strip hrecords
      obtain ⟨last, htake, hlast, hahead⟩ := ih hreads (record :: cut)
      refine ⟨last, ?_, hlast, ?_⟩
      · rw [Window.takeFrom, hnext]
        simpa [hrest] using htake
      · rw [hahead, hrest, List.drop_succ_cons]

theorem take (h : w.Reads content) (n : Nat) :
    ∃ w', w.take strip n = ((recordsOf strip w.ahead).take n, w') ∧ w'.Reads content ∧
      recordsOf strip w'.ahead = (recordsOf strip w.ahead).drop n :=
  h.takeFrom strip [] n

/-- The bound on the number of questions is never what ends a drain. -/
theorem drain (h : w.Reads content) :
    ∃ w', w.drain strip = (recordsOf strip w.ahead, w') ∧ w'.Reads content ∧ w'.ahead = [] := by
  have hbound : (recordsOf strip w.ahead).length ≤ w.cursor.left + 1 := by
    have hlength := length_recordsOf_le strip w.ahead
    rw [h.left_eq]
    omega
  obtain ⟨last, htake, hlast, hahead⟩ := h.take strip (w.cursor.left + 1)
  rw [List.take_of_length_le hbound] at htake
  rw [List.drop_of_length_le hbound] at hahead
  exact ⟨last, htake, hlast, recordsOf_eq_nil.1 hahead⟩

end Reads

end Window

end FileAccess
