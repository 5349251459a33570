import Mathlib.Data.Int.Log
import FeedgateFetcher.Python.Time

/-!
# `float`

Doubles as the rationals they stand for.  Every operation that is modelled rounds its exact result
once, to the double next to it.  The seconds of a `timedelta` are such a quotient, so that their
whole part may be one more than that of the exact quotient: from 2^34 seconds on, which are 544
years, half the distance between two doubles is more than a microsecond.
-/

namespace FeedgateFetcher.Python

namespace Timedelta

/-- An integer is rounded to by nothing farther from it than one half. -/
theorem roundHalfEven_le_add_half (q : ℚ) : (roundHalfEven q : ℚ) ≤ q + 1 / 2 := by
  have hfloor := Int.floor_le q
  unfold roundHalfEven
  dsimp only
  split_ifs <;> push_cast <;> linarith

end Timedelta

/-- A `float`; zero has no sign here. -/
inductive PyFloat where
  | nan
  | inf (negative : Bool)
  | finite (q : ℚ)
deriving DecidableEq, Repr

namespace PyFloat

/-- The exponent of the last of the 53 binary digits of a number, bounded below. -/
def exponent (q : ℚ) : Int := max (Int.log 2 |q| - 52) (-1074)

/-- The distance between two doubles around a number. -/
def ulp (q : ℚ) : ℚ := (2 : ℚ) ^ exponent q

/-- The double next to a number, the even one of two, with no bound on its exponent. -/
def nearest (q : ℚ) : ℚ := Timedelta.roundHalfEven (q / ulp q) * ulp q

/-- The double next to a positive number, infinite beyond the greatest one. -/
def roundDouble (q : ℚ) : PyFloat :=
  if nearest q < (2 : ℚ) ^ 1024 then .finite (nearest q) else .inf false

def neg : PyFloat → PyFloat
  | .nan => .nan
  | .inf b => .inf !b
  | .finite q => .finite (-q)

/-- `int(x)` for a finite one. -/
def truncate (q : ℚ) : Int := q.num.tdiv q.den

/-- `int(x)`. -/
def toInt : PyFloat → Except PyError Int
  | .nan => .error .valueError
  | .inf _ => .error .overflowError
  | .finite q => .ok (truncate q)

theorem ulp_pos (q : ℚ) : 0 < ulp q := zpow_pos two_pos _

theorem nearest_le_add_half (q : ℚ) : nearest q ≤ q + ulp q / 2 := by
  have hpos := ulp_pos q
  have hround := Timedelta.roundHalfEven_le_add_half (q / ulp q)
  calc nearest q ≤ (q / ulp q + 1 / 2) * ulp q := mul_le_mul_of_nonneg_right hround hpos.le
    _ = q + ulp q / 2 := by field_simp

theorem nearest_nonpos {q : ℚ} (h : q ≤ 0) : nearest q ≤ 0 := by
  have hpos := ulp_pos q
  have hround : Timedelta.roundHalfEven (q / ulp q) ≤ Timedelta.roundHalfEven ((0 : Int) : ℚ) :=
    Timedelta.roundHalfEven_mono (by
      rw [Int.cast_zero]
      exact div_nonpos_of_nonpos_of_nonneg h hpos.le)
  rw [Timedelta.roundHalfEven_intCast] at hround
  exact mul_nonpos_of_nonpos_of_nonneg (by exact_mod_cast hround) hpos.le

/-- The doubles below a power of two end in its fifty-third digit or behind it. -/
theorem exponent_le {q : ℚ} {k : Nat} (hq : 0 ≤ q) (h : q < 2 ^ k) (hk : 0 < k) :
    exponent q ≤ k - 53 := by
  have hlog : Int.log 2 |q| < k := by
    rw [abs_of_nonneg hq]
    rcases hq.eq_or_lt with rfl | hpos
    · rw [Int.log_zero_right]
      exact_mod_cast hk
    · exact (Int.lt_zpow_iff_log_lt one_lt_two hpos).mp (by exact_mod_cast h)
  rw [exponent]
  omega

theorem ulp_le {q : ℚ} {k : Nat} (hq : 0 ≤ q) (h : q < 2 ^ k) (hk : 0 < k) :
    ulp q ≤ (2 : ℚ) ^ ((k : Int) - 53) :=
  zpow_le_zpow_right₀ one_le_two (exponent_le hq h hk)

/-- An integer of at most 53 digits is a double, and no number above it is rounded below it. -/
theorem le_nearest {q : ℚ} {n : Int} (hn : n ≤ q) (hq : exponent q ≤ 0) : n ≤ nearest q := by
  obtain ⟨j, hj⟩ := Int.exists_eq_neg_ofNat hq
  have hpos := ulp_pos q
  have hulp : ulp q * 2 ^ j = 1 := by
    rw [ulp, hj, zpow_neg, zpow_natCast]
    exact inv_mul_cancel₀ (pow_ne_zero j two_ne_zero)
  have hscaled : ((n * 2 ^ j : Int) : ℚ) ≤ q / ulp q := by
    rw [le_div_iff₀ hpos]
    push_cast
    rw [mul_assoc, mul_comm (2 ^ j), hulp, mul_one]
    exact hn
  have hround : n * 2 ^ j ≤ Timedelta.roundHalfEven (q / ulp q) := by
    have hmono := Timedelta.roundHalfEven_mono hscaled
    rwa [Timedelta.roundHalfEven_intCast] at hmono
  calc (n : ℚ) = (n * 2 ^ j : Int) * ulp q := by
        push_cast
        rw [mul_assoc, mul_comm (2 ^ j), hulp, mul_one]
    _ ≤ nearest q := mul_le_mul_of_nonneg_right (by exact_mod_cast hround) hpos.le

theorem truncate_of_nonneg {q : ℚ} (h : 0 ≤ q) : truncate q = ⌊q⌋ := by
  rw [truncate, Int.tdiv_eq_ediv_of_nonneg (Rat.num_nonneg.mpr h), Rat.floor_def']

theorem truncate_nonpos {q : ℚ} (h : q ≤ 0) : truncate q ≤ 0 := by
  rw [truncate]
  have hnum : q.num ≤ 0 := Rat.num_nonpos.mpr h
  rw [← neg_neg q.num, Int.neg_tdiv]
  exact neg_nonpos.mpr (Int.tdiv_nonneg (by omega) (Int.natCast_nonneg _))

/-! ## The seconds of a `timedelta` -/

/-- `int(d.total_seconds())` for a `timedelta` of `m` microseconds. -/
def wholeSeconds (m : Int) : Int := truncate (nearest (m / 1000000))

theorem wholeSeconds_nonpos {m : Int} (h : m ≤ 0) : wholeSeconds m ≤ 0 :=
  truncate_nonpos (nearest_nonpos
    (div_nonpos_of_nonpos_of_nonneg (by exact_mod_cast h) (by decide)))

section

variable {m : Int} {k : Nat}

/-- No whole second is lost, and none is gained before the half of the distance of two doubles. -/
theorem wholeSeconds_spec (hm : 0 ≤ m) (h : m < 2 ^ k * 1000000) (hk : 0 < k) (hk' : k ≤ 53) :
    m / 1000000 ≤ wholeSeconds m ∧
      (wholeSeconds m : ℚ) ≤ m / 1000000 + (2 : ℚ) ^ ((k : Int) - 54) := by
  have hq : (0 : ℚ) ≤ m / 1000000 := div_nonneg (by exact_mod_cast hm) (by decide)
  have hlt : (m : ℚ) / 1000000 < 2 ^ k := by
    rw [div_lt_iff₀ (by decide)]
    exact_mod_cast h
  have hexponent := exponent_le hq hlt hk
  have hbelow : ((m / 1000000 : Int) : ℚ) ≤ nearest (m / 1000000) :=
    le_nearest (by
      rw [le_div_iff₀ (by decide)]
      exact_mod_cast Int.ediv_mul_le m (by decide)) (by omega)
  have hnonneg : 0 ≤ nearest ((m : ℚ) / 1000000) :=
    le_trans (by exact_mod_cast Int.ediv_nonneg hm (by decide)) hbelow
  rw [wholeSeconds, truncate_of_nonneg hnonneg]
  refine ⟨Int.le_floor.mpr hbelow, (Int.floor_le _).trans ((nearest_le_add_half _).trans ?_)⟩
  have hhalf : (2 : ℚ) ^ ((k : Int) - 54) = (2 : ℚ) ^ ((k : Int) - 53) / 2 := by
    rw [show (k : Int) - 54 = k - 53 - 1 by omega, zpow_sub_one₀ two_ne_zero, div_eq_mul_inv]
  have hulp := ulp_le hq hlt hk
  rw [hhalf]
  linarith

/-- Below 2^34 seconds the whole seconds are exact. -/
theorem wholeSeconds_eq (hm : 0 ≤ m) (h : m < 2 ^ 34 * 1000000) : wholeSeconds m = m / 1000000 := by
  obtain ⟨hlower, hupper⟩ := wholeSeconds_spec hm h (by decide) (by decide)
  refine le_antisymm ?_ hlower
  have hscaled : (wholeSeconds m * 1000000 : ℚ) < m + 1 := by
    norm_num at hupper
    linarith
  have hint : wholeSeconds m * 1000000 < m + 1 := by exact_mod_cast hscaled
  omega

/-- Between two instants of `datetime` they are too many by thirty microseconds at most. -/
theorem wholeSeconds_bounds (hm : 0 ≤ m) (h : m < 2 ^ 39 * 1000000) :
    m - 1000000 < wholeSeconds m * 1000000 ∧ wholeSeconds m * 1000000 ≤ m + 30 := by
  obtain ⟨hlower, hupper⟩ := wholeSeconds_spec hm h (by decide) (by decide)
  have hscaled : (wholeSeconds m * 1000000 : ℚ) < m + 31 := by
    norm_num at hupper
    linarith
  have hint : wholeSeconds m * 1000000 < m + 31 := by exact_mod_cast hscaled
  omega

end

example : wholeSeconds 252455615998999999 = 252455615999 := by decide +kernel

end PyFloat

end FeedgateFetcher.Python
