/-
  FileAccess/Proofs/Numbers/Words.lean
  ====================================
  **The number that a 64-bit word stands for.**

  A word is read through its sign, field and fraction.  In the range where 53 digits are
  kept, the word nearest to a number stands for the number rounded to 53 digits
  (`value?_ofScaled`): the field counts units, and a significand that rounds up to the
  next power of two carries into it.
-/
import FileAccess.Proofs.Numbers.Rounding

namespace FileAccess

namespace Binary64

/-- The number that a word stands for, if it stands for one. -/
def value? (x : Binary64) : Option ℚ :=
  match x.datum with
  | .nan => none
  | .infinite _ => none
  | .finite negative significand exponent =>
    some ((if negative then -1 else 1) * significand * 2 ^ exponent)

/-! ### Words by their parts -/

/-- A word put together from a sign, a field and a fraction.  A fraction of a whole unit
    carries into the field. -/
def ofParts (negative : Bool) (field fraction : ℕ) : Binary64 :=
  ⟨UInt64.ofNat ((if negative then twoPow 63 else 0) + (field * twoPow 52 + fraction))⟩

section Parts

variable (negative : Bool) {field fraction : ℕ}

theorem twoPow_52 : twoPow 52 = 4503599627370496 := rfl

theorem twoPow_53 : twoPow 53 = 9007199254740992 := rfl

theorem twoPow_63 : twoPow 63 = 9223372036854775808 := rfl

theorem toNat_ofParts (hfield : field ≤ 2046) (hfraction : fraction < twoPow 52) :
    (ofParts negative field fraction).word.toNat =
      (if negative then twoPow 63 else 0) + (field * twoPow 52 + fraction) := by
  rw [ofParts, UInt64.toNat_ofNat']
  apply Nat.mod_eq_of_lt
  rw [twoPow_52] at hfraction ⊢
  rw [twoPow_63]
  split <;> omega

/-- A word with a field that is neither the least nor the greatest is read as it was put
    together. -/
theorem datum_ofParts (hleast : 1 ≤ field) (hgreatest : field ≤ 2046)
    (hfraction : fraction < twoPow 52) :
    (ofParts negative field fraction).datum =
      .finite negative (fraction + twoPow 52) ((field : ℤ) - 1075) := by
  have hword := toNat_ofParts negative hgreatest hfraction
  have h11 : twoPow 11 = 2048 := rfl
  rw [twoPow_52, twoPow_63] at hword
  rw [twoPow_52] at hfraction
  have hfield : (ofParts negative field fraction).field = field := by
    rw [Binary64.field, hword, twoPow_52, h11]
    split <;> omega
  have hfraction' : (ofParts negative field fraction).fraction = fraction := by
    rw [Binary64.fraction, hword, twoPow_52]
    split <;> omega
  have hnegative : (ofParts negative field fraction).isNegative = negative := by
    rw [isNegative, hword, twoPow_63, Bool.eq_iff_iff, beq_iff_eq]
    split <;> rename_i hsign
    · exact iff_of_true (by omega) hsign
    · exact iff_of_false (by omega) hsign
  rw [datum, hfield, hfraction', hnegative, if_neg (by omega), if_neg (by omega)]

/-- The parts may be a count of units and a significand with its leading digit, or the next
    power of two: the leading digit is counted with the units. -/
theorem value?_ofParts {units significand : ℕ} (hunits : units ≤ 2044)
    (hlow : twoPow 52 ≤ significand) (hhigh : significand ≤ twoPow 53) :
    (ofParts negative units significand).value? =
      some ((if negative then -1 else 1) * (significand : ℚ) * 2 ^ ((units : ℤ) - 1074)) := by
  have h53 : twoPow 53 = 2 * twoPow 52 := rfl
  rcases lt_or_eq_of_le hhigh with hlt | rfl
  · obtain ⟨fraction, rfl⟩ := Nat.exists_eq_add_of_le' hlow
    have hparts : units * twoPow 52 + (fraction + twoPow 52) =
        (units + 1) * twoPow 52 + fraction := by ring
    have hcarry : ofParts negative units (fraction + twoPow 52) =
        ofParts negative (units + 1) fraction := by
      rw [ofParts, hparts, ofParts]
    have hscale : ((units + 1 : ℕ) : ℤ) - 1075 = (units : ℤ) - 1074 := by
      push_cast
      ring
    rw [hcarry, value?, datum_ofParts negative (by omega) (by omega) (by omega), hscale]
  · have hcarry : ofParts negative units (twoPow 53) = ofParts negative (units + 2) 0 := by
      rw [ofParts, ofParts, h53, Nat.add_zero, Nat.add_mul]
    have hscale : (2 : ℚ) ^ (((units + 2 : ℕ) : ℤ) - 1075) = 2 * 2 ^ ((units : ℤ) - 1074) := by
      rw [← zpow_one_add₀ two_ne_zero]
      congr 1
      push_cast
      ring
    rw [hcarry, value?, datum_ofParts negative (by omega) (by omega) (Nat.two_pow_pos 52)]
    dsimp only
    rw [hscale, h53, Nat.zero_add]
    push_cast
    congr 1
    ring

end Parts

/-! ### The word nearest to a number -/

/-- The numbers that a word keeps 53 digits of: zero, and those between the least number
    with 53 digits and half the greatest power of two. -/
def InRange (q : ℚ) : Prop :=
  q = 0 ∨ 2 ^ (-1022 : ℤ) ≤ |q| ∧ |q| < 2 ^ (1022 : ℤ)

/-- Of times in seconds no more than this is asked. -/
theorem inRange_of_abs {q : ℚ} (hlow : q = 0 ∨ 2 ^ (-53 : ℤ) ≤ |q|)
    (hhigh : |q| ≤ 2 ^ (64 : ℤ)) : InRange q := by
  refine hlow.imp_right fun hfar => ⟨?_, ?_⟩
  · exact (zpow_le_zpow_right₀ one_le_two (by norm_num)).trans hfar
  · exact hhigh.trans_lt (zpow_lt_zpow_right₀ one_lt_two (by norm_num))

theorem value?_zero : value? ⟨0⟩ = some 0 := by
  have hdatum : datum ⟨0⟩ = .finite false 0 (-1074) := by decide
  rw [value?, hdatum]
  simp

section Nearest

open Scaled

variable {x : Scaled}

theorem ofScaled_eq_ofParts (hzero : x.value ≠ 0) (hleast : -1074 ≤ x.unit53)
    (hgreatest : x.unit53 < 970) :
    ofScaled x = ofParts (decide (x.significand < 0)) (x.unit53 + 1074).toNat
      x.round53.significand.natAbs := by
  have hmost := x.abs_significand_round53_le
  rw [Int.abs_eq_natAbs] at hmost
  have hmin : (x.unit53 + 1074).toNat * twoPow 52 + x.round53.significand.natAbs ≤
      2047 * twoPow 52 := by
    rw [twoPow_52]
    omega
  rw [ofScaled, if_neg (mt value_eq_zero_iff.2 hzero), ofParts]
  dsimp only
  rw [max_eq_right hleast, ← round53, min_eq_left hmin]
  simp only [decide_eq_true_eq]

theorem sign_mul_natAbs_round53 (hzero : x.value ≠ 0) :
    (if decide (x.significand < 0) = true then -1 else 1) *
      (x.round53.significand.natAbs : ℚ) = x.round53.significand := by
  obtain ⟨_, hsign⟩ := significand_round53 hzero
  rw [Nat.cast_natAbs, Int.cast_abs]
  by_cases hneg : x.significand < 0
  · have hneg' : (x.round53.significand : ℚ) < 0 := by exact_mod_cast hsign.2 hneg
    rw [if_pos (decide_eq_true hneg), abs_of_neg hneg', neg_one_mul, neg_neg]
  · have hpos : 0 ≤ x.round53.significand := not_lt.1 (mt hsign.1 hneg)
    have hpos' : (0 : ℚ) ≤ x.round53.significand := by exact_mod_cast hpos
    rw [if_neg (by simpa using hneg), abs_of_nonneg hpos', one_mul]

/-- **The word nearest to a number stands for the number rounded to 53 digits.** -/
theorem value?_ofScaled (h : InRange x.value) : (ofScaled x).value? = some x.round53.value := by
  by_cases hzero : x.value = 0
  · rw [ofScaled, if_pos (value_eq_zero_iff.1 hzero), value_round53_of_eq_zero hzero]
    exact value?_zero
  · obtain ⟨hlow, hhigh⟩ := h.resolve_left hzero
    have hleast := lt_unit53 hlow
    have hgreatest := unit53_lt hzero hhigh
    obtain ⟨hdigits, _⟩ := significand_round53 hzero
    have hmost := x.abs_significand_round53_le
    rw [Int.abs_eq_natAbs] at hmost
    have hlast : x.round53.significand.natAbs ≤ twoPow 53 := by
      rw [twoPow_53]
      omega
    have hunits : (((x.unit53 + 1074).toNat : ℕ) : ℤ) - 1074 = x.unit53 := by omega
    rw [ofScaled_eq_ofParts hzero (by omega) (by omega), value?_ofParts _ (by omega) hdigits hlast,
      hunits, sign_mul_natAbs_round53 hzero, value_round53]

/-- A rounded number is not rounded again. -/
theorem value?_ofScaled_round53 (hlow : x.value = 0 ∨ 2 ^ (-53 : ℤ) ≤ |x.value|)
    (hhigh : |x.value| ≤ 2 ^ (64 : ℤ)) :
    (ofScaled x.round53).value? = some x.round53.value := by
  have hrange : InRange x.round53.value :=
    inRange_of_abs (hlow.imp value_round53_of_eq_zero (le_abs_round53 (hasDigits53_two_zpow _)))
      (abs_round53_le (hasDigits53_two_zpow _) hhigh)
  rw [value?_ofScaled hrange, value_round53_of_hasDigits53 x.hasDigits53_value_round53]

end Nearest

end Binary64

end FileAccess
