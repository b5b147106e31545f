import MeterCheck.Json.Numeral
import MeterCheck.Proofs.Binary64.Rounding

/-!
# Doubles times powers of ten

* `exists_scaled?_of_neg`: a negative power of ten never leaves the doubles;
* `exists_scaled?_of_lt`: neither does another one, as long as two roundings upwards do not reach
  the range of infinity;
* `proper_of_scaled?`: the result is a finite double.
-/

namespace MeterCheck.Json.Numeral

open Binary64

variable {s n : Nat} {e : Int} {x : Binary64}

theorem power_lt_overflow (h : n ≤ maxPower) : ((10 ^ n : Nat) : ℚ) < overflow := by
  have hmax : 10 ^ maxPower < (2 ^ 54 - 1) * 2 ^ 970 := by decide +kernel
  have hle : 10 ^ n ≤ 10 ^ maxPower := Nat.pow_le_pow_right (by decide) h
  exact natCast_lt_overflow (hle.trans_lt hmax)

theorem magnitude_power10 (h : n ≤ maxPower) :
    (1 : ℚ) / 2 ≤ (power10 n).magnitude ∧
      (power10 n).magnitude ≤ 10 ^ n * (1 + 1 / 2 ^ 53) := by
  have hone : 1 ≤ 10 ^ n := Nat.one_le_pow' n 9
  have hcast : (1 : ℚ) ≤ (10 ^ n : Nat) := by exact_mod_cast hone
  obtain ⟨hlow, hhigh⟩ := bounds_ofNat hone (power_lt_overflow h)
  refine ⟨le_trans (by linarith) hlow, ?_⟩
  rw [Nat.cast_pow, Nat.cast_ofNat] at hhigh
  exact hhigh

theorem mantissa_power10_pos (h : n ≤ maxPower) : 0 < (power10 n).mantissa := by
  have hhalf := (magnitude_power10 h).1
  refine Nat.pos_of_ne_zero fun hzero => ?_
  rw [magnitude, hzero] at hhalf
  norm_num at hhalf

theorem exists_scaled?_of_neg (s : Nat) (h : e < 0) : ∃ x, scaled? s e = some x := by
  simp only [scaled?, Int.not_le.2 h, ↓reduceIte]
  split_ifs <;> exact ⟨_, rfl⟩

theorem magnitude_ofNat_le (h : (n : ℚ) < overflow) :
    (Binary64.ofNat n).magnitude ≤ n * (1 + 1 / 2 ^ 53) := by
  rcases Nat.eq_zero_or_pos n with rfl | hn
  · simp [Binary64.ofNat, nearest, zero, magnitude]
  · exact (bounds_ofNat hn h).2

/-- Two roundings upwards do not reach the range of infinity. -/
theorem exists_scaled?_of_lt (hn : n ≤ maxPower)
    (h : (s : ℚ) * 10 ^ n * (1 + 1 / 2 ^ 53) ^ 2 < overflow) : ∃ x, scaled? s n = some x := by
  have hpower : (1 : ℚ) ≤ 10 ^ n := one_le_pow₀ (by norm_num)
  have hs : (s : ℚ) < overflow := by
    refine lt_of_le_of_lt ?_ h
    have hs0 : (0 : ℚ) ≤ s := by positivity
    calc (s : ℚ) = s * 1 * 1 := by ring
      _ ≤ s * 10 ^ n * (1 + 1 / 2 ^ 53) ^ 2 := by gcongr; norm_num
  have hmul : (Binary64.ofNat s).magnitude * (power10 n).magnitude < overflow := by
    refine lt_of_le_of_lt ?_ h
    calc (Binary64.ofNat s).magnitude * (power10 n).magnitude
        ≤ (s * (1 + 1 / 2 ^ 53)) * (10 ^ n * (1 + 1 / 2 ^ 53)) := by
          have hnonneg := magnitude_nonneg (power10 n)
          gcongr
          · exact magnitude_ofNat_le hs
          · exact (magnitude_power10 hn).2
      _ = s * 10 ^ n * (1 + 1 / 2 ^ 53) ^ 2 := by ring
  have hfinite : ((Binary64.ofNat s).mul (power10 n)).isFinite = true :=
    decide_eq_true (rounds_mul hmul).proper.exponent_le
  have hlarge : ¬ (maxPower : Int) < n := by
    rw [Int.ofNat_lt]
    exact not_lt.2 hn
  simp only [scaled?, Int.natCast_nonneg, ↓reduceIte, hlarge, Int.toNat_natCast]
  split_ifs
  · exact ⟨_, rfl⟩
  · exact ⟨_, Option.filter_eq_some_iff.2 ⟨rfl, hfinite⟩⟩

/-! ## Finite results -/

/-- Dividing by a power of ten at most doubles a number. -/
theorem rounds_div_power10 (hn : n ≤ maxPower) (hx : 2 * x.magnitude < overflow) :
    (x.div (power10 n)).Proper ∧ (x.div (power10 n)).magnitude ≤ 4 * x.magnitude + 1 := by
  have hnonneg := magnitude_nonneg x
  have hhalf := (magnitude_power10 hn).1
  have hle : x.magnitude / (power10 n).magnitude ≤ 2 * x.magnitude := by
    rw [div_le_iff₀ (by linarith)]
    nlinarith
  have hrounds := rounds_div (mantissa_power10_pos hn) (lt_of_le_of_lt hle hx)
  refine ⟨hrounds.proper, ?_⟩
  have hnear := (abs_le.1 hrounds.near).2
  have hsmall : (2 : ℚ) ^ (-1075 : ℤ) ≤ 1 := zpow_le_one_of_nonpos₀ one_le_two (by norm_num)
  have hpos : 0 ≤ x.magnitude / (power10 n).magnitude :=
    div_nonneg hnonneg (magnitude_nonneg (power10 n))
  have hmax : max (x.magnitude / (power10 n).magnitude / 2 ^ 53) ((2 : ℚ) ^ (-1075 : ℤ)) ≤
      x.magnitude / (power10 n).magnitude + 1 := by
    apply max_le
    · linarith [div_le_self hpos (by norm_num : (1 : ℚ) ≤ 2 ^ 53)]
    · linarith
  linarith

theorem proper_of_scaled? (hs : s < 2 ^ 64) (h : scaled? s e = some x) : x.Proper := by
  have hover : (2 : ℚ) ^ 70 < overflow := by
    exact_mod_cast natCast_lt_overflow (by decide +kernel : 2 ^ 70 < (2 ^ 54 - 1) * 2 ^ 970)
  have hcast : (s : ℚ) < 2 ^ 64 := by exact_mod_cast hs
  have hofNat : (s : ℚ) < overflow := by linarith
  have hmagnitude : (Binary64.ofNat s).magnitude ≤ 2 * s := by
    refine (magnitude_ofNat_le hofNat).trans ?_
    have hs0 : (0 : ℚ) ≤ s := by positivity
    linarith
  simp only [scaled?] at h
  split_ifs at h with hzero hnonneg hlarge hsmall hsmaller
  · cases h
    exact (rounds_ofNat hofNat).proper
  · obtain ⟨hx, hfinite⟩ := Option.filter_eq_some_iff.1 h
    cases hx
    exact ⟨mantissa_mul_lt _ _, of_decide_eq_true hfinite⟩
  · cases h
    exact (rounds_div_power10 hsmall (by linarith)).1
  · cases h
    have hfirst := (rounds_div_power10 (le_refl maxPower) (by linarith :
      2 * (Binary64.ofNat s).magnitude < overflow)).2
    exact (rounds_div_power10 (by omega) (by linarith)).1
  · cases h
    exact proper_zero false

end MeterCheck.Json.Numeral
