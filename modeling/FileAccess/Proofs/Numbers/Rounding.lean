/-
  FileAccess/Proofs/Numbers/Rounding.lean
  =======================================
  **Rounding to 53 binary digits, over the rationals.**

  A scaled number stands for a rational, and sums and products of scaled numbers are exact
  (`value_add`, `value_mul`).  Rounding divides by a unit, takes the nearest integer, an
  even one where two are as near (`IsNearest`), and multiplies by the unit again
  (`isNearest_roundTo`); the unit is the one that leaves 53 digits before the point
  (`abs_value_lt`, `le_abs_value`).

  What later files use of it is that rounding stays on the same side of every number with
  53 digits (`round53_le`, `le_round53`), and so leaves such a number as it is.
-/
import FileAccess.Binary64
import Mathlib.Algebra.Order.Field.Power
import Mathlib.Data.Rat.Floor
import Mathlib.Tactic.FieldSimp
import Mathlib.Tactic.Linarith
import Mathlib.Tactic.NormNum
import Mathlib.Tactic.Positivity
import Mathlib.Tactic.Ring

namespace FileAccess

/-! ### Nearest integers -/

/-- `n` is the integer nearest to `q`, and even where another integer is as near. -/
def IsNearest (q : ℚ) (n : ℤ) : Prop :=
  2 * |q - n| < 1 ∨ 2 * |q - n| = 1 ∧ Even n

namespace IsNearest

variable {q : ℚ} {m n : ℤ}

theorem abs_sub_le (h : IsNearest q n) : 2 * |q - n| ≤ 1 := by
  rcases h with hlt | ⟨heq, _⟩
  · exact hlt.le
  · exact heq.le

theorem le_of_le (h : IsNearest q n) (hq : q ≤ m) : n ≤ m := by
  have habs := h.abs_sub_le
  have hsub := neg_abs_le (q - n)
  have hlt : (n : ℚ) < m + 1 := by linarith
  exact Int.lt_add_one_iff.1 (by exact_mod_cast hlt)

theorem ge_of_ge (h : IsNearest q n) (hq : m ≤ q) : m ≤ n := by
  have habs := h.abs_sub_le
  have hsub := le_abs_self (q - n)
  have hlt : (m : ℚ) < n + 1 := by linarith
  exact Int.lt_add_one_iff.1 (by exact_mod_cast hlt)

theorem neg (h : IsNearest q n) : IsNearest (-q) (-n) := by
  have habs : |-q - ((-n : ℤ) : ℚ)| = |q - n| := by
    rw [← abs_neg]
    congr 1
    push_cast
    ring
  rw [IsNearest, habs, even_neg]
  exact h

theorem unique (hm : IsNearest q m) (hn : IsNearest q n) : m = n := by
  -- two integers as near as that differ by one at most, and then both are as far as it goes
  by_contra hne
  have hdiff : (1 : ℚ) ≤ |(m : ℚ) - n| := by
    have hpos : 0 < |m - n| := abs_pos.2 (sub_ne_zero.2 hne)
    exact_mod_cast hpos
  have htriangle : |(m : ℚ) - n| ≤ |q - m| + |q - n| := by
    have hsub : (m : ℚ) - n = -(q - m) + (q - n) := by ring
    rw [hsub, ← abs_neg (q - m)]
    exact abs_add_le _ _
  have hmle := hm.abs_sub_le
  have hnle := hn.abs_sub_le
  have hmeven : Even m := by
    rcases hm with hlt | ⟨_, heven⟩
    · exact absurd htriangle (by linarith)
    · exact heven
  have hneven : Even n := by
    rcases hn with hlt | ⟨_, heven⟩
    · exact absurd htriangle (by linarith)
    · exact heven
  have hone : |m - n| = 1 := by
    have hle : |(m : ℚ) - n| ≤ 1 := by linarith
    have heq : |(m : ℚ) - n| = 1 := le_antisymm hle hdiff
    exact_mod_cast heq
  have heven : Even |m - n| := even_abs.2 (hmeven.sub hneven)
  rw [hone] at heven
  exact absurd heven (by decide)

end IsNearest

theorem isNearest_intCast (n : ℤ) : IsNearest n n := by
  left
  rw [sub_self, abs_zero]
  norm_num

theorem isNearest_add {f : ℚ} (hf : 0 ≤ f) (n : ℤ) (h : 2 * f < 1 ∨ 2 * f = 1 ∧ Even n) :
    IsNearest (n + f) n := by
  rw [IsNearest, add_sub_cancel_left, abs_of_nonneg hf]
  exact h

theorem isNearest_add_one {f : ℚ} (hf : f ≤ 1) (n : ℤ) (h : 1 < 2 * f ∨ 2 * f = 1 ∧ Odd n) :
    IsNearest (n + f) (n + 1) := by
  have hsub : (n : ℚ) + f - ((n + 1 : ℤ) : ℚ) = -(1 - f) := by
    push_cast
    ring
  rw [IsNearest, hsub, abs_neg, abs_of_nonneg (sub_nonneg.2 hf)]
  rcases h with hlt | ⟨heq, hodd⟩
  · left
    linarith
  · right
    exact ⟨by linarith, hodd.add_one⟩

theorem isNearest_roundHalfEven (num : ℕ) {den : ℕ} (hden : 0 < den) :
    IsNearest ((num : ℚ) / den) (roundHalfEven num den : ℤ) := by
  have hden' : (0 : ℚ) < den := by exact_mod_cast hden
  have hsplit : (num : ℚ) / den = ((num / den : ℕ) : ℤ) + (num % den : ℕ) / (den : ℚ) := by
    have hnat : (num : ℚ) = (num / den : ℕ) * den + (num % den : ℕ) := by
      exact_mod_cast (Nat.div_add_mod' num den).symm
    rw [div_eq_iff hden'.ne', add_mul, div_mul_cancel₀ _ hden'.ne']
    exact hnat
  have hmod : ((num % den : ℕ) : ℚ) ≤ den := by exact_mod_cast (Nat.mod_lt num hden).le
  have hlt : ((den : ℚ) < 2 * (num % den : ℕ)) ↔ den < 2 * (num % den) := by norm_cast
  have heq : (2 * ((num % den : ℕ) : ℚ) = den) ↔ 2 * (num % den) = den := by norm_cast
  rw [hsplit, roundHalfEven]
  split
  · rename_i hup
    push_cast
    apply isNearest_add_one ((div_le_one hden').2 hmod)
    rw [← mul_div_assoc, one_lt_div hden', div_eq_one_iff_eq hden'.ne', hlt, heq]
    exact hup.imp_right fun h => ⟨h.1, by exact_mod_cast Nat.odd_iff.2 h.2⟩
  · rename_i hdown
    apply isNearest_add (by positivity)
    rw [← mul_div_assoc, div_lt_one hden', div_eq_one_iff_eq hden'.ne', heq]
    obtain ⟨hle, hodd⟩ := not_or.1 hdown
    rcases lt_or_eq_of_le (Nat.not_lt.1 hle) with h | h
    · left
      exact_mod_cast h
    · right
      refine ⟨h, ?_⟩
      have heven := Nat.not_odd_iff_even.1 fun hodd' => hodd ⟨h, Nat.odd_iff.1 hodd'⟩
      exact_mod_cast heven

namespace Scaled

/-! ### The number that a scaled number stands for -/

def value (x : Scaled) : ℚ :=
  x.significand * 2 ^ x.exponent

theorem value_ofInt (n : ℤ) : (ofInt n).value = n := by
  simp [value, ofInt]

theorem twoPow_toNat {n : ℤ} (h : 0 ≤ n) : (twoPow n.toNat : ℚ) = 2 ^ n := by
  have hpow : twoPow n.toNat = 2 ^ n.toNat := rfl
  rw [hpow]
  push_cast
  rw [← zpow_natCast, Int.toNat_of_nonneg h]

theorem value_rescaled (significand : ℤ) {exponent unit : ℤ} (h : unit ≤ exponent) :
    value ⟨significand * twoPow (exponent - unit).toNat, unit⟩ =
      significand * 2 ^ exponent := by
  have hsub : 0 ≤ exponent - unit := sub_nonneg.2 h
  rw [value]
  push_cast
  rw [twoPow_toNat hsub, mul_assoc, ← zpow_add₀ two_ne_zero, sub_add_cancel]

theorem value_add (x y : Scaled) : (x.add y).value = x.value + y.value := by
  have hx := value_rescaled x.significand (min_le_left x.exponent y.exponent)
  have hy := value_rescaled y.significand (min_le_right x.exponent y.exponent)
  rw [value] at hx hy
  rw [value, add]
  dsimp only
  push_cast at hx hy ⊢
  rw [add_mul, hx, hy, value, value]

theorem value_mul (x y : Scaled) : (x.mul y).value = x.value * y.value := by
  rw [value, mul, value, value]
  dsimp only
  rw [zpow_add₀ two_ne_zero]
  push_cast
  ring

/-! ### Rounding to a unit -/

theorem isNearest_sign_mul {significand : ℤ} {num den : ℕ} (hden : 0 < den)
    (hnum : num = significand.natAbs) :
    IsNearest ((significand : ℚ) / den) (significand.sign * roundHalfEven num den) := by
  have hnearest := isNearest_roundHalfEven num hden
  rcases lt_trichotomy significand 0 with hneg | rfl | hpos
  · have hcast : (significand : ℚ) = -(num : ℚ) := by
      have hint : significand = -(num : ℤ) := by omega
      exact_mod_cast hint
    rw [Int.sign_eq_neg_one_of_neg hneg, neg_one_mul, hcast, neg_div]
    exact hnearest.neg
  · simp only [Int.sign_zero, zero_mul, Int.cast_zero, zero_div]
    exact_mod_cast isNearest_intCast 0
  · have hcast : (significand : ℚ) = (num : ℚ) := by
      have hint : significand = (num : ℤ) := by omega
      exact_mod_cast hint
    rw [Int.sign_eq_one_of_pos hpos, one_mul, hcast]
    exact hnearest

theorem exponent_roundTo (unit : ℤ) (x : Scaled) : (x.roundTo unit).exponent = unit := by
  rw [roundTo]
  split <;> rfl

theorem value_roundTo (unit : ℤ) (x : Scaled) :
    (x.roundTo unit).value = (x.roundTo unit).significand * 2 ^ unit := by
  rw [value, exponent_roundTo]

/-- **Rounding to a unit takes the nearest multiple of it.** -/
theorem isNearest_roundTo (unit : ℤ) (x : Scaled) :
    IsNearest (x.value / 2 ^ unit) (x.roundTo unit).significand := by
  have hunit : (2 : ℚ) ^ unit ≠ 0 := zpow_ne_zero unit two_ne_zero
  by_cases hle : unit ≤ x.exponent
  · have hexact : (x.roundTo unit).value = x.value := by
      rw [roundTo, if_pos hle]
      exact value_rescaled x.significand hle
    rw [← hexact, value_roundTo, mul_div_cancel_right₀ _ hunit]
    exact isNearest_intCast _
  · have hsub : 0 ≤ unit - x.exponent := by omega
    have hden : 0 < twoPow (unit - x.exponent).toNat := Nat.two_pow_pos _
    have hquotient : x.value / 2 ^ unit =
        x.significand / (twoPow (unit - x.exponent).toNat : ℚ) := by
      rw [twoPow_toNat hsub, value, zpow_sub₀ two_ne_zero, div_div_eq_mul_div]
    rw [hquotient, roundTo, if_neg hle]
    exact isNearest_sign_mul hden rfl

/-! ### Rounding to 53 digits -/

variable {x : Scaled} {r : ℚ}

/-- A rational that 53 binary digits and a scale are enough for. -/
def HasDigits53 (r : ℚ) : Prop :=
  ∃ significand exponent : ℤ, |significand| ≤ 2 ^ 53 ∧ r = significand * 2 ^ exponent

theorem hasDigits53_intCast {n : ℤ} (h : |n| ≤ 2 ^ 53) : HasDigits53 n :=
  ⟨n, 0, h, by rw [zpow_zero, mul_one]⟩

theorem hasDigits53_two_zpow (exponent : ℤ) : HasDigits53 (2 ^ exponent) :=
  ⟨1, exponent, by norm_num, by rw [Int.cast_one, one_mul]⟩

theorem abs_value (x : Scaled) : |x.value| = x.significand.natAbs * 2 ^ x.exponent := by
  have hscale : (0 : ℚ) < 2 ^ x.exponent := zpow_pos two_pos x.exponent
  rw [value, abs_mul, abs_of_pos hscale, Nat.cast_natAbs, Int.cast_abs]

theorem value_eq_zero_iff : x.value = 0 ↔ x.significand = 0 := by
  rw [value, mul_eq_zero, Int.cast_eq_zero, or_iff_left (zpow_ne_zero _ two_ne_zero)]

/-- The unit of 53 digits leaves at most 53 digits before the point, -/
theorem abs_value_lt (x : Scaled) : |x.value| < 2 ^ (x.unit53 + 53) := by
  have hlog : (x.significand.natAbs : ℚ) < 2 ^ ((x.significand.natAbs.log2 : ℤ) + 1) := by
    have hnat : x.significand.natAbs < 2 ^ (x.significand.natAbs.log2 + 1) := Nat.lt_log2_self
    exact_mod_cast hnat
  have hexponent : x.unit53 + 53 = (x.significand.natAbs.log2 : ℤ) + 1 + x.exponent := by
    rw [unit53]
    ring
  rw [abs_value, hexponent, zpow_add₀ two_ne_zero _ x.exponent]
  exact mul_lt_mul_of_pos_right hlog (zpow_pos two_pos _)

/-- and no fewer. -/
theorem le_abs_value (h : x.value ≠ 0) : 2 ^ (x.unit53 + 52) ≤ |x.value| := by
  have hne : x.significand.natAbs ≠ 0 := Int.natAbs_ne_zero.2 (mt value_eq_zero_iff.2 h)
  have hlog : (2 : ℚ) ^ (x.significand.natAbs.log2 : ℤ) ≤ x.significand.natAbs := by
    exact_mod_cast Nat.log2_self_le hne
  have hexponent : x.unit53 + 52 = (x.significand.natAbs.log2 : ℤ) + x.exponent := by
    rw [unit53]
    ring
  rw [abs_value, hexponent, zpow_add₀ two_ne_zero _ x.exponent]
  exact mul_le_mul_of_nonneg_right hlog (zpow_pos two_pos _).le

theorem lt_unit53 {n : ℤ} (h : 2 ^ n ≤ |x.value|) : n < x.unit53 + 53 :=
  (zpow_lt_zpow_iff_right₀ (one_lt_two (α := ℚ))).1 (h.trans_lt x.abs_value_lt)

theorem unit53_lt {n : ℤ} (hne : x.value ≠ 0) (h : |x.value| < 2 ^ n) : x.unit53 + 52 < n :=
  (zpow_lt_zpow_iff_right₀ (one_lt_two (α := ℚ))).1 ((le_abs_value hne).trans_lt h)

/-- The unit is known from two powers of two that the number lies between. -/
theorem unit53_eq {n : ℤ} (hle : 2 ^ n ≤ |x.value|) (hlt : |x.value| < 2 ^ (n + 1)) :
    x.unit53 = n - 52 := by
  have hne : x.value ≠ 0 := abs_pos.1 ((zpow_pos two_pos n).trans_le hle)
  have hlow := lt_unit53 hle
  have hhigh := unit53_lt hne hlt
  omega

/-- A number with 53 digits is a multiple of every unit that leaves no more than 53 of its
    digits before the point. -/
theorem HasDigits53.exists_multiple (hr : HasDigits53 r) {unit : ℤ}
    (hle : 2 ^ (unit + 52) ≤ |r|) : ∃ n : ℤ, r = n * 2 ^ unit := by
  obtain ⟨significand, exponent, habs, rfl⟩ := hr
  by_cases hunit : unit ≤ exponent
  · refine ⟨significand * twoPow (exponent - unit).toNat, ?_⟩
    exact (value_rescaled significand hunit).symm
  · -- the digits reach no further than this unit, so the number is a power of two
    have hscale : (0 : ℚ) < 2 ^ exponent := zpow_pos two_pos exponent
    have hdigits : (|significand| : ℚ) ≤ 2 ^ 53 := by exact_mod_cast habs
    have hsplit : (2 : ℚ) ^ (unit + 52) = 2 ^ 52 * 2 ^ unit := by
      rw [zpow_add₀ two_ne_zero, mul_comm]
      norm_num
    have hpower : (2 : ℚ) ^ exponent ≤ 2 ^ (unit - 1) :=
      zpow_le_zpow_right₀ one_le_two (by omega)
    have hhalf : (2 : ℚ) ^ unit = 2 * 2 ^ (unit - 1) := by
      rw [zpow_sub_one₀ two_ne_zero]
      ring
    have hge : |(significand : ℚ) * 2 ^ exponent| ≤ 2 ^ 52 * 2 ^ unit := by
      rw [abs_mul, abs_of_pos hscale, hhalf]
      nlinarith
    have heq : |(significand : ℚ) * 2 ^ exponent| = 2 ^ 52 * 2 ^ unit :=
      le_antisymm hge (hsplit ▸ hle)
    rcases eq_or_eq_neg_of_abs_eq heq with hpos | hneg
    · exact ⟨2 ^ 52, by rw [hpos]; push_cast; rfl⟩
    · exact ⟨-2 ^ 52, by rw [hneg]; push_cast; ring⟩

theorem value_round53 (x : Scaled) :
    x.round53.value = x.round53.significand * 2 ^ x.unit53 :=
  value_roundTo x.unit53 x

theorem isNearest_round53 (x : Scaled) :
    IsNearest (x.value / 2 ^ x.unit53) x.round53.significand :=
  isNearest_roundTo x.unit53 x

theorem round53_le_mul {n : ℤ} (h : x.value ≤ n * 2 ^ x.unit53) :
    x.round53.value ≤ n * 2 ^ x.unit53 := by
  have hunit : (0 : ℚ) < 2 ^ x.unit53 := zpow_pos two_pos _
  have hle := x.isNearest_round53.le_of_le ((div_le_iff₀ hunit).2 h)
  rw [value_round53]
  exact mul_le_mul_of_nonneg_right (by exact_mod_cast hle) hunit.le

theorem mul_le_round53 {n : ℤ} (h : n * 2 ^ x.unit53 ≤ x.value) :
    n * 2 ^ x.unit53 ≤ x.round53.value := by
  have hunit : (0 : ℚ) < 2 ^ x.unit53 := zpow_pos two_pos _
  have hge := x.isNearest_round53.ge_of_ge ((le_div_iff₀ hunit).2 h)
  rw [value_round53]
  exact mul_le_mul_of_nonneg_right (by exact_mod_cast hge) hunit.le

theorem value_round53_of_eq_zero (h : x.value = 0) : x.round53.value = 0 := by
  have hle := round53_le_mul (x := x) (n := 0) (by simp [h])
  have hge := mul_le_round53 (x := x) (n := 0) (by simp [h])
  simp only [Int.cast_zero, zero_mul] at hle hge
  exact le_antisymm hle hge

theorem two_zpow_add_52 (unit : ℤ) : (2 : ℚ) ^ (unit + 52) = ((2 ^ 52 : ℤ) : ℚ) * 2 ^ unit := by
  rw [zpow_add₀ two_ne_zero, mul_comm]
  norm_num

/-- Between a number and one with 53 digits there is a multiple of every unit that leaves
    the first 53 digits or more. -/
theorem HasDigits53.exists_multiple_between (hr : HasDigits53 r) {unit : ℤ} {q : ℚ}
    (hq : q = 0 ∨ 2 ^ (unit + 52) ≤ |q|) (h : q ≤ r) :
    ∃ n : ℤ, q ≤ n * 2 ^ unit ∧ n * 2 ^ unit ≤ r := by
  rcases hq with rfl | hfar
  · exact ⟨0, by simp, by simpa using h⟩
  by_cases hsmall : |r| < 2 ^ (unit + 52)
  · -- then the first is on the other side of zero
    have habs := hsmall.trans_le hfar
    have hneg : q < 0 := by
      by_contra hnot
      rw [abs_of_nonneg (not_lt.1 hnot)] at habs
      exact absurd (h.trans (le_abs_self r)) (not_le.2 habs)
    have hlow := neg_abs_le r
    rw [two_zpow_add_52] at hfar hsmall
    rw [abs_of_neg hneg] at hfar
    push_cast at hfar hsmall
    refine ⟨-2 ^ 52, ?_, ?_⟩
    · push_cast
      linarith
    · push_cast
      linarith
  · obtain ⟨n, rfl⟩ := hr.exists_multiple (not_lt.1 hsmall)
    exact ⟨n, h, le_rfl⟩

theorem eq_zero_or_le_abs_value (x : Scaled) : x.value = 0 ∨ 2 ^ (x.unit53 + 52) ≤ |x.value| :=
  or_iff_not_imp_left.2 le_abs_value

theorem HasDigits53.neg (hr : HasDigits53 r) : HasDigits53 (-r) := by
  obtain ⟨significand, exponent, habs, rfl⟩ := hr
  refine ⟨-significand, exponent, by rwa [abs_neg], ?_⟩
  push_cast
  ring

/-- **Rounding does not pass a number with 53 digits**, from below -/
theorem round53_le (hr : HasDigits53 r) (h : x.value ≤ r) : x.round53.value ≤ r := by
  obtain ⟨n, hle, hge⟩ := hr.exists_multiple_between x.eq_zero_or_le_abs_value h
  exact (round53_le_mul hle).trans hge

/-- nor from above. -/
theorem le_round53 (hr : HasDigits53 r) (h : r ≤ x.value) : r ≤ x.round53.value := by
  have hfar : -x.value = 0 ∨ 2 ^ (x.unit53 + 52) ≤ |-x.value| := by
    rw [neg_eq_zero, abs_neg]
    exact x.eq_zero_or_le_abs_value
  obtain ⟨n, hge, hle⟩ := hr.neg.exists_multiple_between hfar (neg_le_neg h)
  have hmul : ((-n : ℤ) : ℚ) * 2 ^ x.unit53 ≤ x.round53.value := by
    apply mul_le_round53
    push_cast
    linarith
  refine le_trans ?_ hmul
  push_cast
  linarith

theorem value_round53_of_hasDigits53 (h : HasDigits53 x.value) : x.round53.value = x.value :=
  le_antisymm (round53_le h le_rfl) (le_round53 h le_rfl)

theorem abs_round53_le (hr : HasDigits53 r) (h : |x.value| ≤ r) : |x.round53.value| ≤ r := by
  obtain ⟨hlow, hhigh⟩ := abs_le.1 h
  exact abs_le.2 ⟨le_round53 hr.neg hlow, round53_le hr hhigh⟩

theorem le_abs_round53 (hr : HasDigits53 r) (h : r ≤ |x.value|) : r ≤ |x.round53.value| := by
  rcases le_abs.1 h with hpos | hneg
  · exact le_abs.2 (.inl (le_round53 hr hpos))
  · exact le_abs.2 (.inr (le_neg_of_le_neg (round53_le hr.neg (le_neg_of_le_neg hneg))))

/-! ### The significand of a rounded number -/

theorem abs_significand_round53_le (x : Scaled) : |x.round53.significand| ≤ 2 ^ 53 := by
  have hunit : (0 : ℚ) < 2 ^ x.unit53 := zpow_pos two_pos _
  have hsplit : (2 : ℚ) ^ (x.unit53 + 53) = ((2 ^ 53 : ℤ) : ℚ) * 2 ^ x.unit53 := by
    rw [zpow_add₀ two_ne_zero, mul_comm]
    norm_num
  have hlt := x.abs_value_lt
  rw [hsplit, abs_lt] at hlt
  have hnearest := x.isNearest_round53
  rw [abs_le]
  constructor
  · apply hnearest.ge_of_ge
    rw [le_div_iff₀ hunit]
    push_cast at hlt ⊢
    linarith [hlt.1]
  · apply hnearest.le_of_le
    rw [div_le_iff₀ hunit]
    exact hlt.2.le

theorem hasDigits53_value_round53 (x : Scaled) : HasDigits53 x.round53.value :=
  ⟨x.round53.significand, x.unit53, x.abs_significand_round53_le, value_round53 x⟩

theorem value_pos_iff : 0 < x.value ↔ 0 < x.significand := by
  rw [value, mul_pos_iff_of_pos_right (zpow_pos two_pos _), Int.cast_pos]

/-- Rounding leaves the sign as it is, and a significand with its leading digit. -/
theorem significand_round53 (h : x.value ≠ 0) :
    2 ^ 52 ≤ x.round53.significand.natAbs ∧
      (x.round53.significand < 0 ↔ x.significand < 0) := by
  have hunit : (0 : ℚ) < 2 ^ x.unit53 := zpow_pos two_pos _
  have hnearest := x.isNearest_round53
  have hfar := le_abs_value h
  rw [two_zpow_add_52] at hfar
  have hne : x.significand ≠ 0 := mt value_eq_zero_iff.2 h
  by_cases hpos : 0 < x.value
  · rw [abs_of_pos hpos] at hfar
    have hge : 2 ^ 52 ≤ x.round53.significand := hnearest.ge_of_ge ((le_div_iff₀ hunit).2 hfar)
    have hsign := value_pos_iff.1 hpos
    omega
  · have hneg : x.value < 0 := lt_of_le_of_ne (not_lt.1 hpos) h
    rw [abs_of_neg hneg] at hfar
    have hle : x.round53.significand ≤ -2 ^ 52 := by
      apply hnearest.le_of_le
      rw [div_le_iff₀ hunit]
      push_cast at hfar ⊢
      linarith
    have hsign := mt value_pos_iff.2 hpos
    omega

end Scaled

end FileAccess
