import MeterCheck.Binary64.Basic
import Mathlib.Algebra.Order.Field.Power
import Mathlib.Algebra.Order.Ring.Unbundled.Rat
import Mathlib.Tactic.FieldSimp
import Mathlib.Tactic.Linarith
import Mathlib.Tactic.NormNum
import Mathlib.Tactic.Positivity
import Mathlib.Tactic.Ring

/-!
# How far rounding moves a number

* `magnitude`: the number that a double stands for, without its sign;
* `Rounds`: a double that is close enough to a number to be its rounded value;
* `rounds_nearest`: `nearest` is, for every number below `overflow`;
* `rounds_mul`, `rounds_div`: so each operation is exact up to that one rounding.
-/

namespace MeterCheck.Binary64

/-- The number that the double stands for, without its sign. -/
def magnitude (x : Binary64) : ℚ := x.mantissa * 2 ^ x.exponent

/-- A finite double: its mantissa has at most 53 bits. -/
structure Proper (x : Binary64) : Prop where
  mantissa_lt : x.mantissa < 2 ^ 53
  exponent_le : x.exponent ≤ maxExponent

/-- The least number that is rounded to infinity. -/
def overflow : ℚ := (2 ^ 54 - 1) * 2 ^ (970 : ℤ)

/-- At most half a unit in the last place away. -/
structure Rounds (v : ℚ) (x : Binary64) : Prop where
  proper : x.Proper
  near : |x.magnitude - v| ≤ max (v / 2 ^ 53) (2 ^ (-1075 : ℤ))

variable {num den n d : Nat} {e : Int} {v : ℚ} {x y : Binary64}

theorem magnitude_nonneg (x : Binary64) : 0 ≤ x.magnitude := by
  unfold magnitude
  positivity

/-! ## Scaling -/

/-- A quotient of natural powers is a power with an integer exponent. -/
theorem zpow_neg_toNat {b : ℚ} (hb : b ≠ 0) (e : Int) :
    b ^ (-e).toNat / b ^ e.toNat = b ^ (-e) := by
  rw [← zpow_natCast, ← zpow_natCast, ← zpow_sub₀ hb]
  congr 1
  omega

theorem unscale_den_pos (hden : 0 < den) (num : Nat) (e : Int) : 0 < (unscale num den e).2 := by
  simp only [unscale, Nat.shiftLeft_eq]
  positivity

theorem unscale_ratio (num den : Nat) (e : Int) :
    ((unscale num den e).1 : ℚ) / (unscale num den e).2 = num / den * 2 ^ (-e) := by
  simp only [unscale, Nat.shiftLeft_eq, Nat.cast_mul, Nat.cast_pow, Nat.cast_ofNat]
  rw [mul_div_mul_comm, zpow_neg_toNat two_ne_zero]

/-! ## The binary logarithm -/

theorem log2_bounds (h : 0 < n) :
    (2 : ℚ) ^ (n.log2 : Int) ≤ n ∧ (n : ℚ) < 2 ^ (n.log2 + 1 : Int) := by
  constructor
  · rw [zpow_natCast]
    exact_mod_cast Nat.log2_self_le h.ne'
  · have hlt : n < 2 ^ (n.log2 + 1) := Nat.lt_log2_self
    exact_mod_cast hlt

/-- The numerator of the scaled fraction is at least its denominator from `2 ^ e` on. -/
theorem unscale_le_iff (hden : 0 < den) (num : Nat) (e : Int) :
    (unscale num den e).2 ≤ (unscale num den e).1 ↔ (2 : ℚ) ^ e ≤ num / den := by
  have hpos : (0 : ℚ) < (unscale num den e).2 := by exact_mod_cast unscale_den_pos hden num e
  rw [← Nat.cast_le (α := ℚ), ← one_le_div hpos, unscale_ratio, zpow_neg, ← div_eq_mul_inv,
    one_le_div (by positivity)]

theorem log2Ratio_spec (hnum : 0 < num) (hden : 0 < den) :
    (2 : ℚ) ^ log2Ratio num den ≤ num / den ∧
      (num : ℚ) / den < 2 ^ (log2Ratio num den + 1) := by
  obtain ⟨hnum_low, hnum_high⟩ := log2_bounds hnum
  obtain ⟨hden_low, hden_high⟩ := log2_bounds hden
  have hden_pos : (0 : ℚ) < den := by exact_mod_cast hden
  have hlow : (2 : ℚ) ^ ((num.log2 : Int) - den.log2 - 1) ≤ num / den := by
    rw [sub_sub, zpow_sub₀ two_ne_zero]
    exact div_le_div₀ (by positivity) hnum_low hden_pos hden_high.le
  have hhigh : (num : ℚ) / den < 2 ^ ((num.log2 : Int) - den.log2 + 1) := by
    rw [sub_add_eq_add_sub, zpow_sub₀ two_ne_zero]
    exact div_lt_div₀ hnum_high hden_low (by positivity) (by positivity)
  simp only [log2Ratio, unscale_le_iff hden]
  split
  · rename_i h
    exact ⟨h, hhigh⟩
  · rename_i h
    rw [sub_add_cancel]
    exact ⟨hlow, not_le.1 h⟩

/-! ## Rounding to a natural number -/

theorem roundDiv_cases (n d : Nat) : roundDiv n d = n / d ∨ roundDiv n d = n / d + 1 := by
  simp only [roundDiv]
  split
  · exact .inl rfl
  · exact .inr rfl

theorem abs_roundDiv_sub_le (hd : 0 < d) (n : Nat) : |(roundDiv n d : ℚ) - n / d| ≤ 1 / 2 := by
  have hn : (n : ℚ) = d * (n / d : Nat) + (n % d : Nat) := by
    exact_mod_cast (Nat.div_add_mod n d).symm
  have hpos : (0 : ℚ) < d := by exact_mod_cast hd
  have hr : (0 : ℚ) ≤ (n % d : Nat) := by positivity
  have hr' : ((n % d : Nat) : ℚ) < d := by exact_mod_cast Nat.mod_lt n hd
  have hfrac : (n : ℚ) / d = (n / d : Nat) + (n % d : Nat) / d := by
    field_simp
    linarith
  rw [hfrac, abs_le]
  simp only [roundDiv]
  split
  · rename_i h
    have hhalf : 2 * (n % d) ≤ d := by omega
    have hhalf' : ((n % d : Nat) : ℚ) / d ≤ 1 / 2 := by
      rw [div_le_div_iff₀ hpos two_pos]
      have : (2 : ℚ) * (n % d : Nat) ≤ d := by exact_mod_cast hhalf
      linarith
    have hnonneg : 0 ≤ ((n % d : Nat) : ℚ) / d := by positivity
    constructor <;> linarith
  · rename_i h
    have hhalf : d ≤ 2 * (n % d) := by omega
    have hhalf' : 1 / 2 ≤ ((n % d : Nat) : ℚ) / d := by
      rw [div_le_div_iff₀ two_pos hpos]
      have : (d : ℚ) ≤ 2 * (n % d : Nat) := by exact_mod_cast hhalf
      linarith
    have hone : ((n % d : Nat) : ℚ) / d < 1 := (div_lt_one hpos).2 hr'
    push_cast
    constructor <;> linarith

/-! ## Rounding to a double -/

/-- The exponent that a number is rounded at. -/
def unit (num den : Nat) : Int := max (log2Ratio num den - 52) minExponent

theorem ratio_lt_unit (hnum : 0 < num) (hden : 0 < den) :
    (num : ℚ) / den * 2 ^ (-unit num den) < 2 ^ 53 := by
  have hhigh := (log2Ratio_spec hnum hden).2
  have hle : log2Ratio num den + 1 ≤ unit num den + 53 := by
    unfold unit
    omega
  have hlt : (num : ℚ) / den < 2 ^ (unit num den + 53) :=
    hhigh.trans_le (zpow_le_zpow_right₀ one_le_two hle)
  rw [zpow_neg, ← div_eq_mul_inv, div_lt_iff₀ (by positivity)]
  rw [zpow_add₀ two_ne_zero] at hlt
  linarith

/-- Half a unit in the last place is small against the number or is the least half unit. -/
theorem half_unit_le (hnum : 0 < num) (hden : 0 < den) :
    (2 : ℚ) ^ unit num den / 2 ≤ max ((num : ℚ) / den / 2 ^ 53) (2 ^ (-1075 : ℤ)) := by
  have hlow := (log2Ratio_spec hnum hden).1
  rcases max_choice (log2Ratio num den - 52) minExponent with h | h
  · apply le_max_of_le_left
    rw [unit, h, zpow_sub₀ two_ne_zero]
    have hlow' : (2 : ℚ) ^ log2Ratio num den / 2 ^ 53 ≤ num / den / 2 ^ 53 := by gcongr
    refine le_trans (le_of_eq ?_) hlow'
    norm_num
    ring
  · apply le_max_of_le_right
    have hhalf : (2 : ℚ) ^ (-1075 : ℤ) = 2 ^ minExponent / 2 :=
      zpow_sub_one₀ two_ne_zero minExponent
    rw [unit, h, hhalf]

theorem abs_mul_unit_sub_le (hden : 0 < den) (num : Nat) (e : Int) :
    |(roundDiv (unscale num den e).1 (unscale num den e).2 : ℚ) * 2 ^ e - num / den| ≤
      2 ^ e / 2 := by
  have hround := abs_roundDiv_sub_le (unscale_den_pos hden num e) (unscale num den e).1
  rw [unscale_ratio] at hround
  have hpos : (0 : ℚ) < 2 ^ e := by positivity
  have hscaled : (num : ℚ) / den * 2 ^ (-e) * 2 ^ e = num / den := by
    rw [mul_assoc, ← zpow_add₀ two_ne_zero, neg_add_cancel, zpow_zero, mul_one]
  calc |(roundDiv (unscale num den e).1 (unscale num den e).2 : ℚ) * 2 ^ e - num / den|
      = |(roundDiv (unscale num den e).1 (unscale num den e).2 : ℚ) - num / den * 2 ^ (-e)| *
          2 ^ e := by
        rw [← abs_of_pos hpos, ← abs_mul, abs_of_pos hpos, sub_mul, hscaled]
    _ ≤ 1 / 2 * 2 ^ e := by gcongr
    _ = 2 ^ e / 2 := by ring

theorem roundDiv_le (hnum : 0 < num) (hden : 0 < den) :
    roundDiv (unscale num den (unit num den)).1 (unscale num den (unit num den)).2 ≤ 2 ^ 53 := by
  have hround := abs_roundDiv_sub_le (unscale_den_pos hden num (unit num den))
    (unscale num den (unit num den)).1
  rw [unscale_ratio, abs_le] at hround
  have hlt := ratio_lt_unit hnum hden
  have hcast : (roundDiv (unscale num den (unit num den)).1
      (unscale num den (unit num den)).2 : ℚ) < 2 ^ 53 + 1 := by
    linarith [hround.2]
  have hnat : roundDiv (unscale num den (unit num den)).1
      (unscale num den (unit num den)).2 < 2 ^ 53 + 1 := by
    exact_mod_cast hcast
  omega

/-- The exponent that a number below `overflow` is rounded at is that of finite doubles. -/
theorem unit_le_of_lt (hnum : 0 < num) (hden : 0 < den) (h : (num : ℚ) / den < overflow) :
    unit num den ≤ maxExponent := by
  by_contra hlt
  have hlog : 1024 ≤ log2Ratio num den := by
    simp only [unit, maxExponent, minExponent] at hlt
    omega
  have hlow : (2 : ℚ) ^ 54 * 2 ^ (970 : ℤ) ≤ num / den := by
    have hsplit : (2 : ℚ) ^ (1024 : ℤ) = 2 ^ 54 * 2 ^ (970 : ℤ) := zpow_add₀ two_ne_zero 54 970
    rw [← hsplit]
    exact (zpow_le_zpow_right₀ one_le_two hlog).trans (log2Ratio_spec hnum hden).1
  have hpos : (0 : ℚ) < 2 ^ (970 : ℤ) := by positivity
  rw [overflow] at h
  generalize (2 : ℚ) ^ (970 : ℤ) = p at *
  linarith

/-- So is the next one if the mantissa has to be carried. -/
theorem unit_lt_of_carry (hden : 0 < den) (h : (num : ℚ) / den < overflow)
    (hunit : e ≤ maxExponent)
    (hcarry : roundDiv (unscale num den e).1 (unscale num den e).2 = 2 ^ 53) :
    e < maxExponent := by
  refine lt_of_le_of_ne hunit ?_
  rintro rfl
  have hround : 2 ^ 53 * (2 : ℚ) ^ maxExponent - num / den ≤ 2 ^ maxExponent / 2 := by
    have hround := abs_mul_unit_sub_le hden num maxExponent
    rw [hcarry, abs_le] at hround
    exact_mod_cast hround.2
  have hsplit : (2 : ℚ) ^ maxExponent = 2 ^ (970 : ℤ) * 2 := zpow_add_one₀ two_ne_zero 970
  rw [hsplit] at hround
  rw [overflow] at h
  clear hsplit
  generalize (2 : ℚ) ^ (970 : ℤ) = p at *
  linarith

/-- The mantissa that a number is rounded to, before a carry. -/
def rounded (num den : Nat) : Nat :=
  roundDiv (unscale num den (unit num den)).1 (unscale num den (unit num den)).2

theorem nearest_eq (negative : Bool) (hnum : 0 < num) (den : Nat) :
    nearest negative num den =
      if rounded num den = 2 ^ 53 then
        if maxExponent < unit num den + 1 then infinity negative
        else ⟨negative, 2 ^ 52, unit num den + 1⟩
      else
        if maxExponent < unit num den then infinity negative
        else ⟨negative, rounded num den, unit num den⟩ := by
  rw [nearest, if_neg hnum.ne']
  by_cases hcarry : rounded num den = 2 ^ 53
  · have hcarry' : roundDiv (unscale num den (max (log2Ratio num den - 52) minExponent)).1
        (unscale num den (max (log2Ratio num den - 52) minExponent)).2 = 0x20000000000000 := hcarry
    simp only [hcarry, hcarry', ↓reduceIte]
    rfl
  · have hcarry' : ¬ roundDiv (unscale num den (max (log2Ratio num den - 52) minExponent)).1
        (unscale num den (max (log2Ratio num den - 52) minExponent)).2 = 0x20000000000000 := hcarry
    simp only [hcarry, hcarry', ↓reduceIte]
    rfl

/-- The mantissa of infinity is in range too. -/
theorem mantissa_nearest_lt (negative : Bool) (num : Nat) (hden : 0 < den) :
    (nearest negative num den).mantissa < 2 ^ 53 := by
  rcases Nat.eq_zero_or_pos num with rfl | hnum
  · simp [nearest, zero]
  · have hle : rounded num den ≤ 2 ^ 53 := roundDiv_le hnum hden
    rw [nearest_eq negative hnum]
    split
    · split <;> simp [infinity]
    · split
      · simp [infinity]
      · rename_i hcarry _
        exact lt_of_le_of_ne hle hcarry

theorem nearest_of_lt (negative : Bool) (hnum : 0 < num) (hden : 0 < den)
    (h : (num : ℚ) / den < overflow) :
    (nearest negative num den).Proper ∧
      (nearest negative num den).magnitude = rounded num den * 2 ^ unit num den := by
  have hunit := unit_le_of_lt hnum hden h
  by_cases hcarry : rounded num den = 2 ^ 53
  · have hlt := unit_lt_of_carry hden h hunit hcarry
    rw [nearest_eq negative hnum, if_pos hcarry, if_neg (by omega), hcarry]
    refine ⟨⟨by norm_num, Int.add_one_le_of_lt hlt⟩, ?_⟩
    rw [magnitude, zpow_add_one₀ two_ne_zero]
    push_cast
    ring
  · have hlt : rounded num den < 2 ^ 53 := lt_of_le_of_ne (roundDiv_le hnum hden) hcarry
    rw [nearest_eq negative hnum, if_neg hcarry, if_neg (by omega)]
    exact ⟨⟨hlt, hunit⟩, rfl⟩

/-- Every number below `overflow` is rounded to a double near it. -/
theorem rounds_nearest (negative : Bool) (num : Nat) (hden : 0 < den)
    (h : (num : ℚ) / den < overflow) : Rounds (num / den) (nearest negative num den) := by
  rcases Nat.eq_zero_or_pos num with rfl | hnum
  · refine ⟨⟨by simp [nearest, zero], by simp [nearest, zero, minExponent, maxExponent]⟩, ?_⟩
    simp [nearest, zero, magnitude]
  · obtain ⟨hproper, hmagnitude⟩ := nearest_of_lt negative hnum hden h
    refine ⟨hproper, ?_⟩
    rw [hmagnitude]
    exact (abs_mul_unit_sub_le hden num _).trans (half_unit_le hnum hden)

/-! ## Operations -/

theorem rounds_nearestScaled (negative : Bool) (num : Nat) (hden : 0 < den) (e : Int)
    (h : (num : ℚ) / den * 2 ^ e < overflow) :
    Rounds (num / den * 2 ^ e) (nearestScaled negative num den e) := by
  have hratio := unscale_ratio num den (-e)
  rw [neg_neg] at hratio
  rw [← hratio] at h ⊢
  exact rounds_nearest negative _ (unscale_den_pos hden num (-e)) h

theorem rounds_ofNat (h : (n : ℚ) < overflow) : Rounds n (ofNat n) := by
  have hratio : (n : ℚ) = n / (1 : Nat) := by simp
  rw [hratio] at h ⊢
  exact rounds_nearest false n one_pos h

theorem rounds_mul (h : x.magnitude * y.magnitude < overflow) :
    Rounds (x.magnitude * y.magnitude) (x.mul y) := by
  have hratio : x.magnitude * y.magnitude =
      (x.mantissa * y.mantissa : Nat) / (1 : Nat) * 2 ^ (x.exponent + y.exponent) := by
    rw [magnitude, magnitude, zpow_add₀ two_ne_zero]
    push_cast
    ring
  rw [hratio] at h ⊢
  exact rounds_nearestScaled _ _ one_pos _ h

theorem rounds_div (hy : 0 < y.mantissa) (h : x.magnitude / y.magnitude < overflow) :
    Rounds (x.magnitude / y.magnitude) (x.div y) := by
  have hratio : x.magnitude / y.magnitude =
      (x.mantissa : ℚ) / y.mantissa * 2 ^ (x.exponent - y.exponent) := by
    rw [magnitude, magnitude, zpow_sub₀ two_ne_zero, mul_div_mul_comm]
  rw [hratio] at h ⊢
  exact rounds_nearestScaled _ _ hy _ h

theorem mantissa_mul_lt (x y : Binary64) : (x.mul y).mantissa < 2 ^ 53 :=
  mantissa_nearest_lt _ _ (unscale_den_pos one_pos (x.mantissa * y.mantissa) _)

theorem Proper.neg (h : x.Proper) : x.neg.Proper := ⟨h.mantissa_lt, h.exponent_le⟩

theorem proper_zero (negative : Bool) : (zero negative).Proper := by
  constructor <;> simp [zero, minExponent, maxExponent]

/-- From one on, the error is small against the number. -/
theorem Rounds.near_of_one_le (h : Rounds v x) (hv : 1 ≤ v) : |x.magnitude - v| ≤ v / 2 ^ 53 := by
  have hsmall : (2 : ℚ) ^ (-1075 : ℤ) ≤ 2 ^ (-53 : ℤ) :=
    zpow_le_zpow_right₀ one_le_two (by norm_num)
  have hrel : (2 : ℚ) ^ (-53 : ℤ) ≤ v / 2 ^ 53 := by
    rw [zpow_neg, le_div_iff₀ (by positivity)]
    norm_num
    exact hv
  have hmax := max_eq_left (hsmall.trans hrel)
  exact hmax ▸ h.near

theorem overflow_eq_natCast : overflow = ((2 ^ 54 - 1) * 2 ^ 970 : Nat) := by
  have hsub : ((2 ^ 54 - 1 : Nat) : ℚ) = 2 ^ 54 - 1 := by norm_num
  rw [overflow, Nat.cast_mul, hsub, Nat.cast_pow, zpow_ofNat, Nat.cast_ofNat]

theorem natCast_lt_overflow (h : n < (2 ^ 54 - 1) * 2 ^ 970) : (n : ℚ) < overflow := by
  rw [overflow_eq_natCast]
  exact_mod_cast h

/-- A number is rounded to one between its half and a little more than itself. -/
theorem bounds_ofNat (hn : 1 ≤ n) (h : (n : ℚ) < overflow) :
    (n : ℚ) / 2 ≤ (ofNat n).magnitude ∧ (ofNat n).magnitude ≤ n * (1 + 1 / 2 ^ 53) := by
  have hone : (1 : ℚ) ≤ n := by exact_mod_cast hn
  have hnear := (rounds_ofNat h).near_of_one_le hone
  rw [abs_le] at hnear
  constructor <;> linarith [hnear.1, hnear.2]

end MeterCheck.Binary64
