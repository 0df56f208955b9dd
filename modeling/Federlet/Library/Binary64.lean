import Mathlib.Algebra.Order.Field.Power
import Mathlib.Algebra.Order.Round
import Mathlib.Data.Int.Log
import Mathlib.Data.Rat.Floor
import Mathlib.Tactic.Linarith
import Mathlib.Tactic.NormNum
import Mathlib.Tactic.Positivity
import Mathlib.Tactic.Ring

/-! Rounding of a rational to binary64, to the nearest value and a tie to the even
significand, below the largest finite value. -/

namespace Binary64

/-- The nearest integer, the even one of two. -/
def roundHalfEven (q : ℚ) : ℤ :=
  if 2 * Int.fract q < 1 ∨ (2 * Int.fract q = 1 ∧ ⌊q⌋ % 2 = 0) then ⌊q⌋ else ⌊q⌋ + 1

/-- The exponent of the last place; below the normal range it is that of the
subnormals. -/
def lastPlace (q : ℚ) : ℤ := max (Int.log 2 |q| - 52) (-1074)

def nearest (q : ℚ) : ℚ := roundHalfEven (q / 2 ^ lastPlace q) * 2 ^ lastPlace q

theorem abs_roundHalfEven_sub_le (q : ℚ) : |roundHalfEven q - q| ≤ 1 / 2 := by
  have hfloor := Int.floor_add_fract q
  have hlo := Int.fract_nonneg q
  have hhi := Int.fract_lt_one q
  rw [abs_le, roundHalfEven]
  split_ifs with h
  · have hhalf : 2 * Int.fract q ≤ 1 := h.elim le_of_lt fun h => h.1.le
    constructor <;> linarith
  · have hhalf : 1 ≤ 2 * Int.fract q := not_lt.mp fun hlt => h (.inl hlt)
    push_cast
    constructor <;> linarith

theorem roundHalfEven_le {q : ℚ} {z : ℤ} (h : q ≤ z) : roundHalfEven q ≤ z := by
  have hfloor : ⌊q⌋ ≤ z := by
    have := Int.floor_mono h
    rwa [Int.floor_intCast] at this
  rw [roundHalfEven]
  split_ifs with hdown
  · exact hfloor
  · refine Int.add_one_le_of_lt (lt_of_le_of_ne hfloor fun heq => hdown (.inl ?_))
    have hfract : Int.fract q = q - z := by rw [Int.fract, heq]
    rw [hfract]
    linarith

theorem le_roundHalfEven {q : ℚ} {z : ℤ} (h : z ≤ q) : z ≤ roundHalfEven q := by
  have hfloor : z ≤ ⌊q⌋ := Int.le_floor.mpr h
  rw [roundHalfEven]
  split_ifs
  · exact hfloor
  · omega

theorem abs_nearest_sub_le (q : ℚ) : |nearest q - q| ≤ 2 ^ lastPlace q / 2 := by
  have hpos : (0 : ℚ) < 2 ^ lastPlace q := by positivity
  have hscale : nearest q - q =
      (roundHalfEven (q / 2 ^ lastPlace q) - q / 2 ^ lastPlace q) * 2 ^ lastPlace q := by
    rw [nearest, sub_mul, div_mul_cancel₀ q hpos.ne']
  rw [hscale, abs_mul, abs_of_pos hpos]
  have := mul_le_mul_of_nonneg_right (abs_roundHalfEven_sub_le (q / 2 ^ lastPlace q)) hpos.le
  linarith

theorem lastPlace_le {q : ℚ} {k : ℕ} (h : |q| < 2 ^ (k + 1)) : lastPlace q ≤ k - 52 := by
  refine max_le ?_ (by omega)
  rcases (abs_nonneg q).eq_or_lt with hzero | hpos
  · rw [← hzero, Int.log_zero_right]
    omega
  · have hlog : Int.log 2 |q| < (k + 1 : ℕ) := by
      rw [← Int.lt_zpow_iff_log_lt Nat.one_lt_two hpos, zpow_natCast]
      exact_mod_cast h
    omega

theorem intCast_eq_mul_lastPlace {q : ℚ} (hq : |q| < 2 ^ 53) (z : ℤ) :
    ∃ m : ℤ, (z : ℚ) = m * 2 ^ lastPlace q := by
  obtain ⟨n, hn⟩ : ∃ n : ℕ, lastPlace q = -n := by
    have := lastPlace_le (k := 52) hq
    exact ⟨(-lastPlace q).toNat, by omega⟩
  refine ⟨z * 2 ^ n, ?_⟩
  have hne : (2 : ℚ) ^ n ≠ 0 := by positivity
  rw [hn, zpow_neg, zpow_natCast]
  push_cast
  rw [mul_inv_cancel_right₀ hne]

theorem nearest_le {q : ℚ} {z : ℤ} (hq : |q| < 2 ^ 53) (h : q ≤ z) : nearest q ≤ z := by
  have hpos : (0 : ℚ) < 2 ^ lastPlace q := by positivity
  obtain ⟨m, hm⟩ := intCast_eq_mul_lastPlace hq z
  have hround : roundHalfEven (q / 2 ^ lastPlace q) ≤ m :=
    roundHalfEven_le ((div_le_iff₀ hpos).mpr (hm ▸ h))
  rw [hm, nearest]
  exact mul_le_mul_of_nonneg_right (Int.cast_le.mpr hround) hpos.le

theorem le_nearest {q : ℚ} {z : ℤ} (hq : |q| < 2 ^ 53) (h : z ≤ q) : z ≤ nearest q := by
  have hpos : (0 : ℚ) < 2 ^ lastPlace q := by positivity
  obtain ⟨m, hm⟩ := intCast_eq_mul_lastPlace hq z
  have hround : m ≤ roundHalfEven (q / 2 ^ lastPlace q) :=
    le_roundHalfEven ((le_div_iff₀ hpos).mpr (hm ▸ h))
  rw [hm, nearest]
  exact mul_le_mul_of_nonneg_right (Int.cast_le.mpr hround) hpos.le

/-- Rounding does not carry a magnitude past a whole number, from either side. -/
theorem abs_nearest_le {q : ℚ} {z : ℤ} (hq : |q| < 2 ^ 53) (h : |q| ≤ z) : |nearest q| ≤ z := by
  obtain ⟨hlo, hhi⟩ := abs_le.mp h
  have hlow : ((-z : ℤ) : ℚ) ≤ nearest q := le_nearest hq (by rw [Int.cast_neg]; exact hlo)
  rw [Int.cast_neg] at hlow
  exact abs_le.mpr ⟨hlow, nearest_le hq hhi⟩

theorem le_abs_nearest {q : ℚ} {z : ℤ} (hq : |q| < 2 ^ 53) (h : z ≤ |q|) : z ≤ |nearest q| := by
  rcases le_abs.mp h with hpos | hneg
  · exact le_abs.mpr (.inl (le_nearest hq hpos))
  · have hhigh : nearest q ≤ ((-z : ℤ) : ℚ) := nearest_le hq (by rw [Int.cast_neg]; linarith)
    rw [Int.cast_neg] at hhigh
    exact le_abs.mpr (.inr (by linarith))

/-- Below `2^(k+1)` a value is moved by less than any gap over half its last place. -/
theorem abs_nearest_sub_lt {q gap : ℚ} {k : ℕ} (hq : |q| < 2 ^ (k + 1))
    (hgap : 2 ^ ((k : ℤ) - 52) < 2 * gap) : |nearest q - q| < gap := by
  have hplace : (2 : ℚ) ^ lastPlace q ≤ 2 ^ ((k : ℤ) - 52) :=
    zpow_le_zpow_right₀ (by norm_num) (lastPlace_le hq)
  have := abs_nearest_sub_le q
  linarith

/-- Below `2^(k+1)` a whole number bounds a rounded quotient exactly if it bounds the
quotient, as long as the steps of the quotient are wider than the gap there. -/
theorem abs_nearest_div_le_iff {n s d : ℤ} {k : ℕ} (hd : 0 < d) (hn : |n| < 2 ^ 53 * d)
    (hs : s < 2 ^ (k + 1)) (hgap : (2 : ℚ) ^ ((k : ℤ) - 52) < 2 * (1 / d)) :
    |nearest ((n : ℚ) / d)| ≤ s ↔ |n| ≤ s * d := by
  have hpos : (0 : ℚ) < d := by exact_mod_cast hd
  have habs : |(n : ℚ) / d| = (|n| : ℤ) / d := by rw [abs_div, abs_of_pos hpos, Int.cast_abs]
  have hq : |(n : ℚ) / d| < 2 ^ 53 := by
    rw [habs, div_lt_iff₀ hpos]
    exact_mod_cast hn
  constructor
  · intro hle
    by_contra hgt
    have hmore : (s : ℚ) + 1 / d ≤ |(n : ℚ) / d| := by
      have hstep : (s : ℚ) * d + 1 ≤ (|n| : ℤ) := by exact_mod_cast not_le.mp hgt
      rw [habs, le_div_iff₀ hpos, add_mul, div_mul_cancel₀ _ hpos.ne']
      exact hstep
    by_cases hsmall : |(n : ℚ) / d| < 2 ^ (k + 1)
    · have hclose := abs_nearest_sub_lt hsmall hgap
      have := abs_sub_abs_le_abs_sub ((n : ℚ) / d) (nearest (n / d))
      rw [abs_sub_comm] at this
      linarith
    · have hlarge : (s : ℚ) < 2 ^ (k + 1) := by exact_mod_cast hs
      have hbig := le_abs_nearest (z := 2 ^ (k + 1)) hq (by push_cast; exact not_lt.mp hsmall)
      push_cast at hbig
      linarith
  · intro hle
    refine abs_nearest_le hq ?_
    rw [habs, div_le_iff₀ hpos]
    exact_mod_cast hle

end Binary64
