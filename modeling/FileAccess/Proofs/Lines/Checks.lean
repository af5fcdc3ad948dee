/-
  FileAccess/Proofs/Lines/Checks.lean
  ===================================
  **Cutting records with every index checked.**

  A window carries what is ahead of it, so nothing that it does can be out of bounds.  Here
  records are cut out of the bytes of a store between the indices of a cursor, and each
  step on the way can fail: a slice that is not within the bytes, a difference below zero,
  a cursor that would move back or past its end.

  None of these happens to a window that reads a content, as long as the bytes are that
  content or nothing is ahead any more.  The second case is that of a source that has been
  released, where no bytes are left to cut from.  In both the checked step has a result,
  and it is what the window gives (`Window.Reads.cut?_eq`).
-/
import FileAccess.Proofs.Lines.Calls

namespace FileAccess

open Bytes

/-! ### Checked steps -/

/-- The bytes from one index up to another, if these are in order and within the bytes. -/
def Bytes.slice? (bs : Bytes) (start stop : Nat) : Option Bytes :=
  if start ≤ stop ∧ stop ≤ bs.length then some ((bs.drop start).take (stop - start)) else none

namespace Cursor

def left? (c : Cursor) : Option Nat :=
  if c.position ≤ c.stop then some (c.stop - c.position) else none

def advanceTo? (c : Cursor) (position : Nat) : Option Cursor :=
  if c.position ≤ position ∧ position ≤ c.stop then some { c with position := position } else none

/-- Cut the next record out of the bytes and move the cursor past it. -/
def cut? (strip : Bool) (bytes : Bytes) (c : Cursor) : Option (Option Bytes × Cursor) :=
  if c.isExhausted then some (none, c)
  else do
    let ahead ← slice? bytes c.position c.stop
    match ahead.idxOf? newline with
    | some offset =>
      let moved ← c.advanceTo? (c.position + (offset + 1))
      let record ← slice? bytes c.position (c.position + if strip then offset else offset + 1)
      return (some record, moved)
    | none =>
      let moved ← c.advanceTo? c.stop
      let record ← slice? bytes c.position c.stop
      return (some record, moved)

/-- Cut so many times, whether or not there is a record each time. -/
def ask? (strip : Bool) (bytes : Bytes) : Nat → Cursor → Option (List (Option Bytes) × Cursor)
  | 0, c => some ([], c)
  | n + 1, c => do
    let (record, c) ← c.cut? strip bytes
    let (records, c) ← ask? strip bytes n c
    return (record :: records, c)

end Cursor

namespace LineSource

def next? (source : LineSource) : Option (Option Bytes × Cursor) :=
  match source.store with
  | none => some (none, source.window.cursor)
  | some store => source.window.cursor.cut? source.strips store.content

/-- The bytes that an iteration borrows: none once the store is gone. -/
def bytes (source : LineSource) : Bytes :=
  source.store.elim [] Store.content

def ask? (source : LineSource) (questions : Nat) : Option (List (Option Bytes) × Cursor) :=
  source.window.cursor.ask? source.strips source.bytes questions

def remaining? (source : LineSource) : Option Bytes :=
  match source.store with
  | none => some []
  | some store => slice? store.content source.window.cursor.position source.window.cursor.stop

def release? (source : LineSource) : Option Cursor :=
  match source.store with
  | none => some source.window.cursor
  | some _ => source.window.cursor.advanceTo? source.window.cursor.stop

end LineSource

/-! ### No check fails on a window that reads a content -/

theorem Bytes.slice?_add {bs : Bytes} {start n : Nat} (h : start + n ≤ bs.length) :
    slice? bs start (start + n) = some ((bs.drop start).take n) := by
  rw [slice?, if_pos ⟨Nat.le_add_right start n, h⟩, Nat.add_sub_cancel_left]

theorem idxOf?_append_newline {body : Bytes} (rest : Bytes) (h : newline ∉ body) :
    (body ++ newline :: rest).idxOf? newline = some body.length := by
  have hbody : body.findIdx? (· == newline) = none := List.idxOf?_eq_none_iff.2 h
  simp [List.idxOf?, List.findIdx?_append, List.findIdx?_cons, hbody]

namespace Window.Reads

variable {content bytes : Bytes} {w : Window} (strip : Bool)

theorem slice?_eq (h : w.Reads content) {n : Nat} (hn : n ≤ w.ahead.length) :
    slice? content w.cursor.position (w.cursor.position + n) = some (w.ahead.take n) := by
  have hposition := h.position_le
  have hahead := h.ahead_eq
  rw [hahead, List.length_drop] at hn
  rw [Bytes.slice?_add (by omega), hahead]

theorem advanceTo?_eq (h : w.Reads content) {n : Nat} (hn : n ≤ w.ahead.length) :
    w.cursor.advanceTo? (w.cursor.position + n) = some (w.advance n).cursor := by
  have hposition := h.position_le
  have hstop := h.stop_eq
  rw [h.ahead_eq, List.length_drop] at hn
  rw [Cursor.advanceTo?, if_pos (by omega)]
  rfl

theorem position_add_length_ahead (h : w.Reads content) :
    w.cursor.position + w.ahead.length = w.cursor.stop := by
  have hposition := h.position_le
  rw [h.ahead_eq, List.length_drop, h.stop_eq]
  omega

theorem cut?_of_ahead_eq_nil (h : w.Reads content) (hahead : w.ahead = []) (bytes : Bytes) :
    w.cursor.cut? strip bytes = some (none, w.cursor) := by
  rw [Cursor.cut?, h.isExhausted_eq, hahead]
  rfl

theorem cut?_of_ahead_ne_nil (h : w.Reads content) (hahead : w.ahead ≠ []) :
    w.cursor.cut? strip content =
      some (some (firstRecord strip w.ahead), (w.advance (firstLength w.ahead)).cursor) := by
  have hexhausted : ¬ w.cursor.isExhausted = true := by
    rw [h.isExhausted_eq, List.isEmpty_iff]
    exact hahead
  have hwhole := h.slice?_eq (Nat.le_refl w.ahead.length)
  rw [h.position_add_length_ahead, List.take_length] at hwhole
  rw [Cursor.cut?, if_neg hexhausted, hwhole]
  by_cases hmem : newline ∈ w.ahead
  · obtain ⟨body, rest, hsplit, hbody⟩ := List.eq_append_cons_of_mem hmem
    have hlength : body.length + 1 ≤ w.ahead.length := by
      rw [hsplit, List.length_append, List.length_cons]
      omega
    have hend : (if strip then body.length else body.length + 1) ≤ w.ahead.length := by
      split <;> omega
    have hrecord : w.ahead.take (if strip then body.length else body.length + 1) =
        firstRecord strip w.ahead := by
      rw [hsplit, firstRecord_append_newline rest strip hbody]
      cases strip with
      | true => exact List.take_left
      | false => exact List.take_length_add_append 1
    have hoffset : w.ahead.idxOf? newline = some body.length := by
      rw [hsplit, idxOf?_append_newline rest hbody]
    have hfirst : firstLength w.ahead = body.length + 1 := by
      rw [hsplit, firstLength_append_newline rest hbody]
    rw [hfirst, ← hrecord]
    simp [hoffset, h.advanceTo?_eq hlength, h.slice?_eq hend]
  · have hmoved := h.advanceTo?_eq (Nat.le_refl w.ahead.length)
    rw [h.position_add_length_ahead] at hmoved
    rw [firstRecord_of_newline_notMem strip hmem, firstLength_of_newline_notMem hmem]
    simp [List.idxOf?_eq_none_iff.2 hmem, hmoved]

/-- **A checked step has a result, and it is the window's.** -/
theorem cut?_eq (h : w.Reads content) (hbytes : bytes = content ∨ w.ahead = []) :
    w.cursor.cut? strip bytes = some ((w.next strip).1, (w.next strip).2.cursor) := by
  by_cases hahead : w.ahead = []
  · rw [h.cut?_of_ahead_eq_nil strip hahead, h.next_eq_none strip hahead]
  · obtain rfl := hbytes.resolve_right hahead
    rw [h.cut?_of_ahead_ne_nil strip hahead, h.next_eq_some strip hahead]

/-- What makes checked steps succeed is kept by them. -/
theorem ahead_eq_nil_next (h : w.Reads content) (hahead : w.ahead = []) :
    (w.next strip).2.ahead = [] := by
  rw [h.next_eq_none strip hahead]
  exact hahead

end Window.Reads

theorem Lines.ask?_eq {content bytes : Bytes} (lines : Lines) (hreads : lines.window.Reads content)
    (hbytes : bytes = content ∨ lines.window.ahead = []) (questions : Nat) :
    lines.window.cursor.ask? lines.strips bytes questions =
      some ((lines.ask questions).1, (lines.ask questions).2.window.cursor) := by
  induction questions generalizing lines with
  | zero => rfl
  | succ questions ih =>
    have hcut := hreads.cut?_eq lines.strips hbytes
    have hrest := ih lines.next.2 (hreads.next lines.strips)
      (hbytes.imp_right (hreads.ahead_eq_nil_next lines.strips))
    have hstrips : lines.next.2.strips = lines.strips := rfl
    have hcursor : lines.next.2.window.cursor = (lines.window.next lines.strips).2.cursor := rfl
    rw [hstrips, hcursor] at hrest
    simp only [Cursor.ask?, hcut, hrest, Option.bind_eq_bind, Option.bind_some, Lines.ask]
    rfl

end FileAccess
