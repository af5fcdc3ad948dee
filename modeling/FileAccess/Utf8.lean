/-
  FileAccess/Utf8.lean
  ====================
  **Reading octets as UTF-8 text.**

  One scanner serves two readers.  It cuts a byte string into *units*: a
  well-formed sequence, which yields its character, or the longest prefix of
  one that the following octet spoils (a single octet when no sequence starts
  with it).  `decode?` accepts a byte string when every unit is well formed;
  `display` shows every other unit as U+FFFD, which is how a path is written
  in a message.
-/
import FileAccess.Bytes

namespace FileAccess

namespace Utf8

/-! ### Sequences -/

/-- The sequences that a first octet opens: the bits it contributes, and for
    each octet that must follow the least and the greatest value allowed.  The
    narrowed ranges exclude overlong forms, surrogates and values above
    U+10FFFF. -/
def opened? (b : UInt8) : Option (Nat × List (UInt8 × UInt8)) :=
  let tail : UInt8 × UInt8 := (0x80, 0xBF)
  if b < 0x80 then some (b.toNat, [])
  else if b < 0xC2 then none
  else if b < 0xE0 then some (b.toNat - 0xC0, [tail])
  else if b = 0xE0 then some (0, [(0xA0, 0xBF), tail])
  else if b = 0xED then some (0xD, [(0x80, 0x9F), tail])
  else if b < 0xF0 then some (b.toNat - 0xE0, [tail, tail])
  else if b = 0xF0 then some (0, [(0x90, 0xBF), tail, tail])
  else if b < 0xF4 then some (b.toNat - 0xF0, [tail, tail, tail])
  else if b = 0xF4 then some (4, [(0x80, 0x8F), tail, tail])
  else none

/-- Read the octets that must follow a first one, six bits from each.  `none`
    when one is missing or out of range; the rest starts at the octet that does
    not belong. -/
def follow : List (UInt8 × UInt8) → Nat → Bytes → Option Nat × Bytes
  | [], acc, bs => (some acc, bs)
  | _ :: _, _, [] => (none, [])
  | (low, high) :: ranges, acc, b :: bs =>
    if low ≤ b ∧ b ≤ high then follow ranges (acc * 64 + b.toNat % 64) bs
    else (none, b :: bs)

theorem follow_length_le (ranges : List (UInt8 × UInt8)) (acc : Nat) (bs : Bytes) :
    (follow ranges acc bs).2.length ≤ bs.length := by
  induction ranges generalizing acc bs with
  | nil => simp [follow]
  | cons range ranges ih =>
    cases bs with
    | nil => simp [follow]
    | cons b bs =>
      simp only [follow]
      split
      · exact Nat.le_succ_of_le (ih _ _)
      · simp

def unit (b : UInt8) (bs : Bytes) : Option Char × Bytes :=
  match opened? b with
  | none => (none, bs)
  | some (bits, ranges) =>
    let (code, rest) := follow ranges bits bs
    (code.map Char.ofNat, rest)

theorem unit_length_le (b : UInt8) (bs : Bytes) : (unit b bs).2.length ≤ bs.length := by
  unfold unit
  split
  · simp
  · exact follow_length_le _ _ _

/-! ### The two readers -/

def unitsFrom (found : List (Option Char)) : Bytes → List (Option Char)
  | [] => found.reverse
  | b :: bs =>
    have : (unit b bs).2.length < bs.length + 1 := Nat.lt_succ_of_le (unit_length_le b bs)
    unitsFrom ((unit b bs).1 :: found) (unit b bs).2
termination_by bs => bs.length

/-- The units of a byte string: `none` for one that is not well formed. -/
def units (bs : Bytes) : List (Option Char) :=
  unitsFrom [] bs

def decode? (bs : Bytes) : Option String :=
  let found := units bs
  if found.all Option.isSome then some (String.ofList (found.filterMap id)) else none

/-- The text that stands for a byte string in a message: each unit that is not
    well formed appears as U+FFFD. -/
def display (bs : Bytes) : String :=
  String.ofList ((units bs).map fun c => c.getD '\uFFFD')

end Utf8

end FileAccess
