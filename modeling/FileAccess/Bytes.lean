/-
  FileAccess/Bytes.lean
  =====================
  **Byte strings.**

  Paths, file contents and records are lists of octets: nothing in this library
  requires them to be text.  This file fixes the type and the few octets that
  have a meaning of their own — the separator `/`, the dot of the two special
  names, the newline that ends a record, and the NUL that no path may hold.
-/

namespace FileAccess

abbrev Bytes := List UInt8

namespace Bytes

abbrev slash : UInt8 := 0x2F

abbrev dot : UInt8 := 0x2E

abbrev newline : UInt8 := 0x0A

abbrev nul : UInt8 := 0x00

def ofString (s : String) : Bytes :=
  s.toList.flatMap String.utf8EncodeChar

theorem forall_bne_of_notMem {separator : UInt8} {bs : Bytes} (h : separator ∉ bs) :
    ∀ b ∈ bs, (b != separator) = true := by
  intro b hb
  rw [bne_iff_ne]
  rintro rfl
  exact h hb

end Bytes

end FileAccess
