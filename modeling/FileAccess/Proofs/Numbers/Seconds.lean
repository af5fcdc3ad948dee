/-
  FileAccess/Proofs/Numbers/Seconds.lean
  ======================================
  **How a timestamp's fraction of a second is rounded.**

  A timestamp rendered with its fraction is a rounded sum: the seconds rounded, and the
  rounded product of the nanoseconds and a billionth (`fraction`).  The fraction stays below
  one, and how near to one it comes can be told from the nanoseconds
  (`one_sub_le_fraction_iff`).  The sum stays between its second and the next
  (`round53_le`, `le_round53`), and it is the next second where less of the second is left
  than half the distance of two numbers with 53 digits there (`ReachesNext`).

  The main statement is `floor_render_fractional`: in both formats a timestamp is rendered
  as a number, and the numbers agree on the second but where the next one is reached.
-/
import FileAccess.Proofs.Numbers.Words
import FileAccess.Timestamp
import Mathlib

namespace FileAccess

namespace Timestamp

open Scaled Binary64

/-! ### The fraction of a second -/

/-- The fraction of a second that `n` nanoseconds make, as it is rounded. -/
def fraction (n : ℕ) : ℚ :=
  (nanoUnit.mul (Scaled.ofInt n).round53).round53.value

theorem value_nanoUnit : nanoUnit.value = 4835703278458517 / 2 ^ 82 := by
  rw [value, nanoUnit]
  norm_num

theorem fraction_eq {n : ℕ} (h : n < 1000000000) :
    ∃ x : Scaled, fraction n = x.round53.value ∧ x.value = nanoUnit.value * n := by
  refine ⟨_, rfl, ?_⟩
  have hdigits : HasDigits53 (Scaled.ofInt n).value := by
    rw [value_ofInt]
    exact hasDigits53_intCast (by rw [abs_of_nonneg (by omega)]; omega)
  rw [value_mul, value_round53_of_hasDigits53 hdigits, value_ofInt, Int.cast_natCast]

variable {n : ℕ} {r : ℚ}

theorem fraction_le (h : n < 1000000000) (hr : HasDigits53 r)
    (hle : (n : ℚ) / 1000000000 + 1 / 2 ^ 53 ≤ r) : fraction n ≤ r := by
  obtain ⟨x, hx, hvalue⟩ := fraction_eq h
  rw [hx]
  apply round53_le hr
  have hn : (n : ℚ) ≤ 1000000000 := by exact_mod_cast h.le
  rw [hvalue, value_nanoUnit]
  refine le_trans ?_ hle
  have : (4835703278458517 : ℚ) / 2 ^ 82 ≤ 1 / 1000000000 + 1 / 2 ^ 83 := by norm_num
  nlinarith

theorem le_fraction (h : n < 1000000000) (hr : HasDigits53 r)
    (hle : r ≤ (n : ℚ) / 1000000000) : r ≤ fraction n := by
  obtain ⟨x, hx, hvalue⟩ := fraction_eq h
  rw [hx]
  apply le_round53 hr
  rw [hvalue, value_nanoUnit]
  refine hle.trans ?_
  have hunit : (1 : ℚ) / 1000000000 ≤ 4835703278458517 / 2 ^ 82 := by norm_num
  have hn : (0 : ℚ) ≤ n := by positivity
  rw [div_eq_mul_one_div, mul_comm]
  exact mul_le_mul_of_nonneg_right hunit hn

theorem hasDigits53_one_sub {k : ℕ} (h : k ≤ 2 ^ 53) : HasDigits53 (1 - k / 2 ^ 53) := by
  refine ⟨2 ^ 53 - k, -53, ?_, ?_⟩
  · rw [abs_of_nonneg (by omega)]
    omega
  · push_cast
    norm_num
    ring

theorem fraction_zero : fraction 0 = 0 := by
  obtain ⟨x, hx, hvalue⟩ := fraction_eq (n := 0) (by norm_num)
  rw [hx]
  apply value_round53_of_eq_zero
  rw [hvalue, Nat.cast_zero, mul_zero]

theorem fraction_nonneg (h : n < 1000000000) : 0 ≤ fraction n := by
  apply le_fraction h
  · exact_mod_cast hasDigits53_intCast (n := 0) (by norm_num)
  · positivity

theorem fraction_pos (h : n < 1000000000) (hpos : 0 < n) : 1 / 2 ^ 30 ≤ fraction n := by
  apply le_fraction h
  · exact ⟨1, -30, by norm_num, by norm_num⟩
  · have hn : (1 : ℚ) ≤ n := by exact_mod_cast hpos
    rw [le_div_iff₀ (by norm_num)]
    norm_num
    linarith

theorem fraction_le_one_sub (h : n < 1000000000) : fraction n ≤ 1 - 1 / 2 ^ 53 := by
  have hn : (n : ℚ) + 1 ≤ 1000000000 := by exact_mod_cast h
  have hdigits := hasDigits53_one_sub (k := 1) (by norm_num)
  rw [Nat.cast_one] at hdigits
  apply fraction_le h hdigits
  rw [← le_sub_iff_add_le, div_le_iff₀ (by norm_num)]
  norm_num
  linarith

/-- Between a nanosecond and a power of two there is room for the rounding. -/
theorem room_of_lt {left e : ℕ} (hleft : 0 < left) (h : 1000000000 * 2 ^ e < left * 2 ^ 53) :
    1000000000 * (2 ^ e + 2) ≤ left * 2 ^ 53 := by
  rcases Nat.lt_or_ge e 23 with hsmall | hlarge
  · have hpow : 2 ^ e ≤ 2 ^ 22 := Nat.pow_le_pow_right two_pos (by omega)
    omega
  · -- both sides are multiples of `2 ^ 31`
    obtain ⟨k, rfl⟩ := Nat.exists_eq_add_of_le hlarge
    rw [pow_add] at h ⊢
    omega

/-- How near the rounded fraction is to one can be told from the nanoseconds. -/
theorem one_sub_le_fraction_iff (h : n < 1000000000) {e : ℕ} (he : e ≤ 52) :
    1 - 2 ^ e / 2 ^ 53 ≤ fraction n ↔ (1000000000 - n) * 2 ^ 53 ≤ 1000000000 * 2 ^ e := by
  have hpow : 2 ^ e ≤ 2 ^ 52 := Nat.pow_le_pow_right two_pos he
  have hleft : ((1000000000 - n : ℕ) : ℚ) = 1000000000 - n := by
    rw [Nat.cast_sub h.le]
    norm_num
  constructor
  · intro hle
    by_contra hlt
    have hroom := room_of_lt (by omega) (not_le.1 hlt)
    have hdigits := hasDigits53_one_sub (k := 2 ^ e + 1) (by omega)
    have hroom' : (1000000000 : ℚ) * (2 ^ e + 2) ≤ (1000000000 - n) * 2 ^ 53 := by
      rw [← hleft]
      exact_mod_cast hroom
    have hfraction : fraction n ≤ 1 - ((2 ^ e + 1 : ℕ) : ℚ) / 2 ^ 53 := by
      apply fraction_le h hdigits
      rw [← le_sub_iff_add_le, div_le_iff₀ (by norm_num)]
      push_cast
      linarith
    push_cast at hfraction
    have hstep : (1 : ℚ) - (2 ^ e + 1) / 2 ^ 53 < 1 - 2 ^ e / 2 ^ 53 := by
      rw [add_div]
      linarith [show (0 : ℚ) < 1 / 2 ^ 53 by norm_num]
    exact absurd hle (not_le.2 (hfraction.trans_lt hstep))
  · intro hle
    have hdigits := hasDigits53_one_sub (k := 2 ^ e) (by omega)
    push_cast at hdigits
    have hle' : ((1000000000 : ℚ) - n) * 2 ^ 53 ≤ 1000000000 * 2 ^ e := by
      rw [← hleft]
      exact_mod_cast hle
    apply le_fraction h hdigits
    rw [le_div_iff₀ (by norm_num)]
    linarith

/-- Half a second is rounded to half a second, and no other fraction is. -/
theorem fraction_eq_half_iff (h : n < 1000000000) : fraction n = 1 / 2 ↔ n = 500000000 := by
  have hhalf : fraction 500000000 = 1 / 2 := by
    have hround : (nanoUnit.mul (Scaled.ofInt (500000000 : ℕ)).round53).round53 =
        ⟨4503599627370496, -53⟩ := by decide
    rw [fraction, hround, value]
    norm_num
  constructor
  · intro heq
    have hle := (one_sub_le_fraction_iff h le_rfl).1 (by rw [heq]; norm_num)
    by_contra hne
    have hdigits := hasDigits53_one_sub (k := 2 ^ 52 - 1) (by norm_num)
    have hmore : (500000001 : ℚ) ≤ n := by exact_mod_cast (show 500000001 ≤ n by omega)
    have hge := le_fraction h hdigits (by
      rw [le_div_iff₀ (by norm_num)]
      norm_num
      linarith)
    rw [heq] at hge
    norm_num at hge
  · rintro rfl
    exact hhalf

/-! ### Whole seconds -/

/-- Rounding an integer gives an integer. -/
theorem exists_whole {secs : ℤ} (h : |secs| ≤ 2 ^ 63) :
    ∃ second : ℤ, (Scaled.ofInt secs).round53.value = second ∧ |second| ≤ 2 ^ 63 := by
  have hvalue := value_ofInt secs
  obtain ⟨second, hsecond⟩ : ∃ second : ℤ, (Scaled.ofInt secs).round53.value = second := by
    by_cases hsmall : |secs| ≤ 2 ^ 53
    · refine ⟨secs, ?_⟩
      rw [value_round53_of_hasDigits53 (hvalue ▸ hasDigits53_intCast hsmall), hvalue]
    · have hlarge : (2 : ℚ) ^ (53 : ℤ) < |(Scaled.ofInt secs).value| := by
        rw [hvalue]
        exact_mod_cast not_le.1 hsmall
      have hunit := lt_unit53 hlarge.le
      obtain ⟨unit, hunit⟩ := Int.eq_ofNat_of_zero_le
        (show 0 ≤ (Scaled.ofInt secs).unit53 by omega)
      refine ⟨(Scaled.ofInt secs).round53.significand * 2 ^ unit, ?_⟩
      rw [value_round53, hunit]
      push_cast
      rfl
  refine ⟨second, hsecond, ?_⟩
  have hdigits : ∀ sign : ℤ, |sign| = 1 → HasDigits53 ((sign * 2 ^ 63 : ℤ) : ℚ) := by
    intro sign hsign
    exact ⟨sign, 63, by rw [hsign]; norm_num, by push_cast; norm_num⟩
  obtain ⟨hlow, hhigh⟩ := abs_le.1 h
  rw [abs_le]
  constructor
  · have hge := le_round53 (hdigits (-1) rfl) (x := Scaled.ofInt secs) (by
      rw [hvalue]
      exact_mod_cast hlow)
    rw [hsecond] at hge
    exact_mod_cast hge
  · have hle := round53_le (hdigits 1 rfl) (x := Scaled.ofInt secs) (by
      rw [hvalue]
      exact_mod_cast hhigh)
    rw [hsecond] at hle
    exact_mod_cast hle

/-! ### Seconds and a fraction -/

/-- Where the fraction of a second is rounded up to the next one.  The numbers with 53
    digits between a second and the next are `2 ^ (size.log2 - 52)` apart, where `size` is
    the lesser of the two in magnitude; and of the second is left less than half of that,
    or just half and the next second is the even one of the two numbers as near. -/
def ReachesNext (second : ℤ) (n : ℕ) : Prop :=
  let size := min second.natAbs (second + 1).natAbs
  size < 2 ^ 53 ∧
    ((1000000000 - n) * 2 ^ 53 < 1000000000 * 2 ^ size.log2 ∨
      (1000000000 - n) * 2 ^ 53 = 1000000000 * 2 ^ size.log2 ∧
        (size.log2 < 52 ∨ Even (second + 1)))

instance (second : ℤ) (n : ℕ) : Decidable (ReachesNext second n) := by
  unfold ReachesNext
  infer_instance

section Sum

variable {x : Scaled} {second : ℤ}

theorem log2_le_of_lt {size : ℕ} (h : size < 2 ^ 53) : size.log2 ≤ 52 := by
  by_cases hzero : size = 0
  · rw [hzero]
    decide
  · exact Nat.lt_succ_iff.1 ((Nat.log2_lt hzero).2 h)

/-- Reaching the next second, said of the fraction as it is rounded. -/
theorem reachesNext_iff (h : n < 1000000000)
    (hsize : min second.natAbs (second + 1).natAbs < 2 ^ 53) {e : ℕ}
    (he : (min second.natAbs (second + 1).natAbs).log2 = e) :
    ReachesNext second n ↔
      1 - 2 ^ e / 2 ^ 53 < fraction n ∨
        1 - 2 ^ e / 2 ^ 53 = fraction n ∧ (e < 52 ∨ Even (second + 1)) := by
  have hle := he ▸ log2_le_of_lt hsize
  have hiff := one_sub_le_fraction_iff h hle
  rw [ReachesNext, he, and_iff_right hsize]
  by_cases hlt : e < 52
  · simp only [hlt, true_or, and_true]
    rw [← le_iff_lt_or_eq, ← le_iff_lt_or_eq, hiff]
  · -- only here is a tie decided by the second, and only half a second makes one
    obtain rfl : e = 52 := by omega
    have hhalf : (1 : ℚ) - 2 ^ 52 / 2 ^ 53 = 1 / 2 := by norm_num
    have htie := fraction_eq_half_iff h
    rw [hhalf] at hiff ⊢
    have hmore : 1 / 2 < fraction n ↔ (1000000000 - n) * 2 ^ 53 < 1000000000 * 2 ^ 52 := by
      rw [lt_iff_le_and_ne, hiff, ne_comm, ne_eq, htie]
      omega
    have hequal : 1 / 2 = fraction n ↔ (1000000000 - n) * 2 ^ 53 = 1000000000 * 2 ^ 52 := by
      rw [eq_comm, htie]
      omega
    rw [hmore, hequal]

/-- A sum of a second beyond the integers with 53 digits and a fraction has a unit of two
    at least, and the unit leaves no more digits of the second than of the sum. -/
theorem unit53_of_large (h : n < 1000000000) (hvalue : x.value = second + fraction n)
    (hsize : 2 ^ 53 ≤ min second.natAbs (second + 1).natAbs) :
    0 < x.unit53 ∧ 2 ^ (x.unit53 + 52) ≤ |(second : ℚ)| := by
  have hnonneg := fraction_nonneg h
  have hless : fraction n < 1 := (fraction_le_one_sub h).trans_lt (by norm_num)
  have hbig : (0 : ℚ) < 2 ^ (53 : ℤ) := zpow_pos two_pos _
  have hscale : (2 : ℚ) ^ (53 : ℤ) ≤ |x.value| →
      0 < x.unit53 ∧ 2 ^ (x.unit53 + 52) ≤ |x.value| := by
    intro hlarge
    have hunit := lt_unit53 hlarge
    exact ⟨by omega, le_abs_value (abs_pos.1 (hbig.trans_le hlarge))⟩
  rcases (show 2 ^ 53 ≤ second ∨ second ≤ -2 ^ 53 - 1 by omega) with hpos | hneg
  · have hpos' : (2 : ℚ) ^ (53 : ℤ) ≤ second := by exact_mod_cast hpos
    have habs : |x.value| = second + fraction n := by
      rw [hvalue, abs_of_nonneg (by linarith)]
    obtain ⟨hunit, hfar⟩ := hscale (by linarith)
    refine ⟨hunit, ?_⟩
    -- the power is an integer below the next second
    obtain ⟨k, hk⟩ := Int.eq_ofNat_of_zero_le (show 0 ≤ x.unit53 + 52 by omega)
    have hstep : ((2 ^ k : ℤ) : ℚ) < ((second + 1 : ℤ) : ℚ) := by
      rw [hk, zpow_natCast] at hfar
      push_cast
      linarith
    have hle : ((2 ^ k : ℤ) : ℚ) ≤ second := by
      exact_mod_cast Int.lt_add_one_iff.1 (by exact_mod_cast hstep)
    rw [hk, abs_of_nonneg (by linarith)]
    exact_mod_cast hle
  · have hneg' : (second : ℚ) ≤ -2 ^ (53 : ℤ) - 1 := by exact_mod_cast hneg
    have habs : |x.value| = -second - fraction n := by
      rw [hvalue, abs_of_neg (by linarith)]
      ring
    obtain ⟨hunit, hfar⟩ := hscale (by linarith)
    refine ⟨hunit, ?_⟩
    rw [abs_of_neg (by linarith)]
    linarith

/-- Beyond the integers with 53 digits nothing is left of a fraction. -/
theorem round53_of_large (hdigits : HasDigits53 second) (h : n < 1000000000)
    (hvalue : x.value = second + fraction n)
    (hsize : 2 ^ 53 ≤ min second.natAbs (second + 1).natAbs) :
    x.round53.value = second := by
  obtain ⟨hunit, hfar⟩ := unit53_of_large h hvalue hsize
  obtain ⟨multiple, hmultiple⟩ := hdigits.exists_multiple hfar
  have hscale : (0 : ℚ) < 2 ^ x.unit53 := zpow_pos two_pos _
  have htwo : (2 : ℚ) ≤ 2 ^ x.unit53 := by
    calc (2 : ℚ) = 2 ^ (1 : ℤ) := (zpow_one 2).symm
      _ ≤ 2 ^ x.unit53 := zpow_le_zpow_right₀ one_le_two (by omega)
  have hless : fraction n < 1 := (fraction_le_one_sub h).trans_lt (by norm_num)
  have hquotient : x.value / 2 ^ x.unit53 = multiple + fraction n / 2 ^ x.unit53 := by
    rw [hvalue, hmultiple, add_div, mul_div_cancel_right₀ _ hscale.ne']
  have hnearest : IsNearest (x.value / 2 ^ x.unit53) multiple := by
    rw [hquotient]
    apply isNearest_add (div_nonneg (fraction_nonneg h) hscale.le)
    left
    rw [← mul_div_assoc, div_lt_one hscale]
    linarith
  rw [value_round53, x.isNearest_round53.unique hnearest, hmultiple]

/-- Within a second of the epoch the rounding stops short of the next second. -/
theorem round53_lt_of_small (h : n < 1000000000) (hvalue : x.value = second + fraction n)
    (hsize : min second.natAbs (second + 1).natAbs = 0) : x.round53.value < second + 1 := by
  have hfraction := fraction_le_one_sub h
  rcases (show second = 0 ∨ second = -1 by omega) with rfl | rfl
  · have hdigits := hasDigits53_one_sub (k := 1) (by norm_num)
    rw [Nat.cast_one] at hdigits
    rw [Int.cast_zero, zero_add] at hvalue ⊢
    exact (round53_le hdigits (hvalue ▸ hfraction)).trans_lt (by norm_num)
  · have hdigits : HasDigits53 (-1 / 2 ^ 53) := ⟨-1, -53, by norm_num, by norm_num⟩
    have hle : x.value ≤ -1 / 2 ^ 53 := by
      rw [hvalue]
      push_cast
      linarith
    refine (round53_le hdigits hle).trans_lt ?_
    push_cast
    norm_num

/-- Between two seconds the numbers with 53 digits are a unit apart that the lesser of them
    tells. -/
theorem unit53_of_between (h : n < 1000000000) (hvalue : x.value = second + fraction n)
    (hside : 0 < second ∨ 0 < n) {size e : ℕ}
    (hsize : min second.natAbs (second + 1).natAbs = size) (hpos : 0 < size)
    (he : size.log2 = e) : x.unit53 = (e : ℤ) - 52 := by
  have hne : size ≠ 0 := hpos.ne'
  have hlow : 2 ^ e ≤ size := he ▸ Nat.log2_self_le hne
  have hhigh : size + 1 ≤ 2 ^ (e + 1) := he ▸ Nat.lt_log2_self
  have hlow' : (2 : ℚ) ^ (e : ℤ) ≤ size := by exact_mod_cast hlow
  have hhigh' : (size : ℚ) + 1 ≤ 2 ^ ((e : ℤ) + 1) := by exact_mod_cast hhigh
  have hnonneg := fraction_nonneg h
  have hless : fraction n < 1 := (fraction_le_one_sub h).trans_lt (by norm_num)
  have hbounds : (size : ℚ) ≤ |x.value| ∧ |x.value| < size + 1 := by
    rw [hvalue]
    rcases (show second = size ∨ second = -(size : ℤ) - 1 by omega) with hsecond | hsecond
    · rw [hsecond, abs_of_nonneg (by push_cast; positivity)]
      push_cast
      exact ⟨by linarith, by linarith⟩
    · have hn : 0 < n := hside.resolve_left (by omega)
      have hfraction := fraction_pos h hn
      have hsmall : (0 : ℚ) < 1 / 2 ^ 30 := by norm_num
      have hsize' : (0 : ℚ) < size := by exact_mod_cast hpos
      rw [hsecond, abs_of_neg (by push_cast; linarith)]
      push_cast
      exact ⟨by linarith, by linarith⟩
  exact unit53_eq (hlow'.trans hbounds.1) (hbounds.2.trans_le hhigh')

/-- Between two seconds the next one is reached as the fraction tells. -/
theorem round53_eq_next_iff (h : n < 1000000000) (hvalue : x.value = second + fraction n)
    {e : ℕ} (he : e ≤ 52) (hunit : x.unit53 = (e : ℤ) - 52) :
    x.round53.value = second + 1 ↔
      1 - 2 ^ e / 2 ^ 53 < fraction n ∨
        1 - 2 ^ e / 2 ^ 53 = fraction n ∧ (e < 52 ∨ Even (second + 1)) := by
  -- there are `2 ^ k` units in a second
  obtain ⟨k, hk⟩ : ∃ k, e + k = 52 := ⟨52 - e, by omega⟩
  have hunits : (0 : ℚ) < 2 ^ k := pow_pos two_pos k
  have hscale : (2 : ℚ) ^ x.unit53 = (2 ^ k)⁻¹ := by
    rw [hunit, show (e : ℤ) - 52 = -(k : ℤ) by omega, zpow_neg, zpow_natCast]
  have hhalf : (2 : ℚ) ^ e / 2 ^ 53 = 1 / (2 * 2 ^ k) := by
    rw [div_eq_div_iff (by positivity) (by positivity), one_mul, mul_left_comm, ← pow_add, hk]
    norm_num
  have hless : fraction n < 1 := (fraction_le_one_sub h).trans_lt (by norm_num)
  have hnext : x.round53.value = second + 1 ↔
      IsNearest (x.value / 2 ^ x.unit53) ((second + 1) * 2 ^ k) := by
    have hsignificand : x.round53.value = second + 1 ↔
        x.round53.significand = (second + 1) * 2 ^ k := by
      rw [value_round53, hscale, ← div_eq_mul_inv, div_eq_iff hunits.ne']
      exact_mod_cast Iff.rfl
    rw [hsignificand]
    constructor
    · intro heq
      rw [← heq]
      exact x.isNearest_round53
    · intro hnearest
      exact x.isNearest_round53.unique hnearest
  have hdistance : 2 * |x.value / 2 ^ x.unit53 - (((second + 1) * 2 ^ k : ℤ) : ℚ)| =
      (1 - fraction n) * (2 * 2 ^ k) := by
    have hsub : x.value / 2 ^ x.unit53 - (((second + 1) * 2 ^ k : ℤ) : ℚ) =
        -((1 - fraction n) * 2 ^ k) := by
      rw [hvalue, hscale, div_inv_eq_mul]
      push_cast
      ring
    rw [hsub, abs_neg, abs_of_nonneg (mul_nonneg (by linarith) hunits.le)]
    ring
  have heven : Even ((second + 1) * 2 ^ k) ↔ e < 52 ∨ Even (second + 1) := by
    rw [Int.even_mul, Int.even_pow, or_comm, and_iff_right even_two]
    exact or_congr_left (by omega)
  rw [hnext, IsNearest, hdistance, heven, hhalf, ← lt_div_iff₀ (by positivity),
    ← eq_div_iff (by positivity), sub_lt_comm, sub_eq_iff_eq_add, sub_eq_iff_eq_add, add_comm]

/-- **Where a sum is rounded up to the next second.** -/
theorem round53_eq_next_iff_reachesNext (hdigits : HasDigits53 second) (h : n < 1000000000)
    (hvalue : x.value = second + fraction n)
    (hsize : min second.natAbs (second + 1).natAbs < 2 ^ 53) :
    x.round53.value = second + 1 ↔ ReachesNext second n := by
  obtain ⟨size, hmin⟩ : ∃ size, min second.natAbs (second + 1).natAbs = size := ⟨_, rfl⟩
  obtain ⟨e, he⟩ : ∃ e, size.log2 = e := ⟨_, rfl⟩
  have hsteps : e ≤ 52 := he ▸ log2_le_of_lt (hmin ▸ hsize)
  have hreaches := reachesNext_iff h hsize (hmin.symm ▸ he)
  rcases Nat.eq_zero_or_pos size with hzero | hpos
  · -- next to the epoch the next second is out of reach
    have hlt := round53_lt_of_small h hvalue (hmin.trans hzero)
    have hnot : ¬ReachesNext second n := by
      obtain rfl : e = 0 := by rw [← he, hzero]; rfl
      rw [ReachesNext, hmin, he]
      omega
    exact iff_of_false hlt.ne hnot
  by_cases hside : 0 < second ∨ 0 < n
  · rw [hreaches]
    exact round53_eq_next_iff h hvalue hsteps
      (unit53_of_between h hvalue hside hmin hpos he)
  · -- a whole second is kept
    obtain rfl : n = 0 := by omega
    have hwhole : x.value = second := by rw [hvalue, fraction_zero, add_zero]
    have hkept : x.round53.value = second := by
      rw [value_round53_of_hasDigits53 (hwhole.symm ▸ hdigits), hwhole]
    have hnot : ¬ReachesNext second 0 := by
      have hpow : 2 ^ e ≤ 2 ^ 52 := Nat.pow_le_pow_right two_pos hsteps
      rw [ReachesNext, hmin, he]
      omega
    refine iff_of_false ?_ hnot
    rw [hkept]
    exact (lt_add_one _).ne

/-- **Where a second and its rounded fraction are rounded to.** -/
theorem floor_round53 (hdigits : HasDigits53 second) (h : n < 1000000000)
    (hvalue : x.value = second + fraction n) :
    ⌊x.round53.value⌋ = second + if ReachesNext second n then 1 else 0 := by
  have hnonneg := fraction_nonneg h
  have hless : fraction n < 1 := (fraction_le_one_sub h).trans_lt (by norm_num)
  have hge : (second : ℚ) ≤ x.round53.value := le_round53 hdigits (by linarith)
  by_cases hsize : min second.natAbs (second + 1).natAbs < 2 ^ 53
  · have hnext := round53_eq_next_iff_reachesNext hdigits h hvalue hsize
    have hle : x.round53.value ≤ ((second + 1 : ℤ) : ℚ) := by
      have habs : |second + 1| ≤ 2 ^ 53 := by
        rw [abs_le]
        omega
      apply round53_le (hasDigits53_intCast habs)
      push_cast
      linarith
    by_cases hreaches : ReachesNext second n
    · rw [if_pos hreaches, hnext.2 hreaches]
      exact_mod_cast Int.floor_intCast (second + 1)
    · rw [if_neg hreaches, add_zero, Int.floor_eq_iff]
      push_cast at hle
      exact ⟨hge, lt_of_le_of_ne hle (mt hnext.1 hreaches)⟩
  · rw [round53_of_large hdigits h hvalue (not_lt.1 hsize), Int.floor_intCast,
      if_neg fun hreaches => hsize hreaches.1, add_zero]

/-- A second and a fraction add up to nothing, or to more than the fraction leaves of a
    second. -/
theorem eq_zero_or_le_abs_sum (h : n < 1000000000) (hvalue : x.value = second + fraction n) :
    x.value = 0 ∨ 2 ^ (-53 : ℤ) ≤ |x.value| := by
  have hnonneg := fraction_nonneg h
  have hless := fraction_le_one_sub h
  rw [show (2 : ℚ) ^ (-53 : ℤ) = 1 / 2 ^ 53 by norm_num]
  rcases lt_trichotomy second 0 with hneg | rfl | hpos
  · right
    have hbefore : (second : ℚ) ≤ -1 := by exact_mod_cast Int.le_sub_one_of_lt hneg
    rw [hvalue, abs_of_neg (by linarith)]
    linarith
  · rw [hvalue, Int.cast_zero, zero_add, abs_of_nonneg hnonneg]
    rcases Nat.eq_zero_or_pos n with rfl | hn
    · exact .inl fraction_zero
    · exact .inr (le_trans (by norm_num) (fraction_pos h hn))
  · right
    have hafter : (1 : ℚ) ≤ second := by exact_mod_cast hpos
    rw [hvalue, abs_of_nonneg (by linarith)]
    exact le_trans (by norm_num) (hafter.trans (le_add_of_nonneg_right hnonneg))

theorem abs_sum_le (h : n < 1000000000) (hvalue : x.value = second + fraction n)
    (hsecond : |second| ≤ 2 ^ 63) : |x.value| ≤ 2 ^ (64 : ℤ) := by
  have hnonneg := fraction_nonneg h
  have hless := fraction_le_one_sub h
  have hsecond' : |(second : ℚ)| ≤ 2 ^ 63 := by exact_mod_cast hsecond
  rw [hvalue]
  refine (abs_add_le _ _).trans ?_
  rw [abs_of_nonneg hnonneg]
  norm_num at hsecond' hless ⊢
  linarith

end Sum

/-! ### The renderings -/

variable {t : Timestamp}

/-- Whole seconds as a word stand for the seconds rounded to 53 digits. -/
theorem value?_render_integer (h : |t.secs| ≤ 2 ^ 63) :
    (t.render .integer).toBinary64.value? = some (Scaled.ofInt t.secs).round53.value := by
  have hsecond : (Scaled.ofInt t.secs).value = t.secs + fraction 0 := by
    rw [value_ofInt, fraction_zero, add_zero]
  exact value?_ofScaled (inRange_of_abs (eq_zero_or_le_abs_sum (by norm_num) hsecond)
    (abs_sum_le (by norm_num) hsecond h))

/-- **The two renderings of a timestamp are numbers, and they agree on the second but where
    the fraction reaches the next one.** -/
theorem floor_render_fractional (hlow : -2 ^ 63 ≤ t.secs) (hhigh : t.secs < 2 ^ 63) :
    ∃ whole fractional : ℚ,
      (t.render .integer).toBinary64.value? = some whole ∧
      (t.render .fractional).toBinary64.value? = some fractional ∧
      ⌊fractional⌋ = ⌊whole⌋ + if ReachesNext ⌊whole⌋ t.nanos then 1 else 0 := by
  have hsecs : |t.secs| ≤ 2 ^ 63 := abs_le.2 ⟨hlow, hhigh.le⟩
  obtain ⟨second, hwhole, hsecond⟩ := exists_whole hsecs
  obtain ⟨x, hx, hvalue⟩ : ∃ x : Scaled, t.fractionalSeconds = x.round53 ∧
      x.value = (Scaled.ofInt t.secs).round53.value + fraction t.nanos :=
    ⟨_, rfl, value_add _ _⟩
  have hdigits : HasDigits53 second := hwhole ▸ hasDigits53_value_round53 _
  rw [hwhole] at hvalue
  have hfractional : (t.render .fractional).toBinary64.value? = some x.round53.value := by
    rw [render, Value.toBinary64, hx]
    exact value?_ofScaled_round53 (eq_zero_or_le_abs_sum t.nanos_lt hvalue)
      (abs_sum_le t.nanos_lt hvalue hsecond)
  refine ⟨second, x.round53.value, hwhole ▸ value?_render_integer hsecs, hfractional, ?_⟩
  rw [Int.floor_intCast]
  exact floor_round53 hdigits t.nanos_lt hvalue

theorem floor_render_fractional_halfSecond :
    -2 ^ 63 ≤ (2 ^ 52 + 1 : ℤ) ∧ (2 ^ 52 + 1 : ℤ) < 2 ^ 63 ∧
      let t : Timestamp := ⟨2 ^ 52 + 1, 500000000, by norm_num⟩
      ∃ whole fractional : ℚ,
        (t.render .integer).toBinary64.value? = some whole ∧
        (t.render .fractional).toBinary64.value? = some fractional ∧
        ⌊fractional⌋ = ⌊whole⌋ + if ReachesNext ⌊whole⌋ t.nanos then 1 else 0 :=
  ⟨by norm_num, by norm_num, floor_render_fractional (by norm_num) (by norm_num)⟩

/-- The last nanosecond of a second is rendered as the next one. -/
theorem floor_render_ne_lastNanosecond :
    let t : Timestamp := ⟨1700000000, 999999999, by norm_num⟩
    ∃ whole fractional : ℚ,
      (t.render .integer).toBinary64.value? = some whole ∧
      (t.render .fractional).toBinary64.value? = some fractional ∧
      ⌊fractional⌋ ≠ ⌊whole⌋ := by
  intro t
  have hwhole : (t.render .integer).toBinary64.value? = some 1700000000 := by
    have hdatum : (t.render .integer).toBinary64.datum =
        .finite false (1700000000 * 2 ^ 22) (-22) := by decide
    rw [value?, hdatum]
    norm_num
  have hfractional : (t.render .fractional).toBinary64.value? = some 1700000001 := by
    have hdatum : (t.render .fractional).toBinary64.datum =
        .finite false (1700000001 * 2 ^ 22) (-22) := by decide
    rw [value?, hdatum]
    norm_num
  refine ⟨_, _, hwhole, hfractional, ?_⟩
  norm_num

end Timestamp

end FileAccess
