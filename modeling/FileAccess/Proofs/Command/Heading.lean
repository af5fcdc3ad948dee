/-
  FileAccess/Proofs/Command/Heading.lean
  ======================================
  **A heading is one line.**

  The text of a modification time is made of digits, a sign, a point, or one of a few
  words, so there is no newline in it, and none in its octets: the octets of a character
  other than a newline never are one.  So what is written in front of the records is
  always one line (`isHeading_mtimeLine`).
-/
import FileAccess.Command.Run

namespace FileAccess

open Bytes

/-! ### Octets of a text -/

/-- An octet that encodes a character is its number, or none of ASCII. -/
theorem toNat_of_mem_utf8EncodeChar (c : Char) :
    ∀ b ∈ String.utf8EncodeChar c, b.toNat = c.val.toNat ∨ 128 ≤ b.toNat := by
  unfold String.utf8EncodeChar
  dsimp only
  repeat' split
  all_goals
    simp only [List.forall_mem_cons, UInt8.toNat_ofNat', List.not_mem_nil, false_implies,
      implies_true, and_true]
    omega

theorem Bytes.newline_mem_ofString {text : String} (h : newline ∈ ofString text) :
    '\n' ∈ text.toList := by
  obtain ⟨c, hc, hbyte⟩ := List.mem_flatMap.1 h
  have hcode : c.val.toNat = 10 := by
    rcases toNat_of_mem_utf8EncodeChar c newline hbyte with hsame | hhigh
    · exact hsame.symm
    · exact absurd hhigh (by decide)
  have hnewline : c = '\n' := Char.ext (UInt32.toNat_inj.1 hcode)
  exact hnewline ▸ hc

theorem Bytes.ofString_append (first second : String) :
    ofString (first ++ second) = ofString first ++ ofString second := by
  rw [ofString, String.toList_append, List.flatMap_append]
  rfl

/-! ### Texts of numbers -/

theorem newline_notMem_repr (n : Nat) : '\n' ∉ n.repr.toList := by
  rw [Nat.toList_repr]
  intro hmem
  exact absurd (Nat.isDigit_of_mem_toDigits (by decide) (by decide) hmem) (by decide)

namespace Binary64

theorem newline_notMem_paddedDigits (width n : Nat) : '\n' ∉ (paddedDigits width n).toList := by
  intro hmem
  rw [paddedDigits, String.toList_ofList, List.mem_append] at hmem
  rcases hmem with hzero | hdigit
  · exact absurd (List.eq_of_mem_replicate hzero) (by decide)
  · rw [← Nat.toList_repr] at hdigit
    exact newline_notMem_repr n hdigit

theorem newline_notMem_placesText (places units : Nat) :
    '\n' ∉ (placesText places units).toList := by
  rw [placesText, String.toList_append, String.toList_append, List.mem_append, List.mem_append,
    not_or, not_or]
  exact ⟨⟨newline_notMem_repr _, by decide⟩, newline_notMem_paddedDigits _ _⟩

theorem newline_notMem_fixedText (places : Nat) (x : Binary64) :
    '\n' ∉ (x.fixedText places).toList := by
  rw [fixedText]
  split
  · decide
  · split <;> decide
  · rw [String.toList_append, List.mem_append, not_or]
    refine ⟨?_, newline_notMem_placesText _ _⟩
    split <;> decide

end Binary64

theorem Timestamp.Value.newline_notMem_text (value : Timestamp.Value) :
    '\n' ∉ value.text.toList := by
  cases value with
  | seconds secs =>
    show '\n' ∉ secs.repr.toList
    rw [Int.repr_eq_if]
    split
    · exact newline_notMem_repr _
    · rw [String.toList_append, List.mem_append, not_or]
      exact ⟨by decide, newline_notMem_repr _⟩
  | fractional value => exact Binary64.newline_notMem_fixedText 9 value

/-! ### Headings -/

namespace Command

/-- One line that tells a modification time. -/
def IsHeading (bytes : Bytes) : Prop :=
  ∃ text, newline ∉ text ∧ bytes = ofString "# mtime " ++ text ++ [newline]

/-- **The line of a modification time is a heading**, whatever the time and its format. -/
theorem isHeading_mtimeLine (value : Option Timestamp.Value) : IsHeading (mtimeLine value) := by
  refine ⟨ofString ((value.map Timestamp.Value.text).getD "none"), ?_, ?_⟩
  · intro hmem
    have htext := newline_mem_ofString hmem
    cases value with
    | none => exact absurd htext (by decide)
    | some value => exact value.newline_notMem_text htext
  · rw [mtimeLine, asLine, ofString_append]

end Command

end FileAccess
