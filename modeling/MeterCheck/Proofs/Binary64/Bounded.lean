import MeterCheck.Proofs.Binary64.Rounding

/-!
# Doubles that stay small

* `AtMost`: a finite double that is no larger than a power of two;
* `atMost_nearest`: a number little above a power of two is rounded to that power or below it;
* `AtMost.add`: so a sum of small terms stays below a large power, however many terms there are;
* `atMost_ofInt`, `AtMost.div`: integers, and quotients of them.
-/

namespace MeterCheck.Binary64

/-- Finite, and at most `2 ^ k` without its sign. -/
structure AtMost (k : Int) (x : Binary64) : Prop where
  proper : x.Proper
  le : x.magnitude ≤ 2 ^ k

variable {num den n : Nat} {k e : Int} {x y : Binary64}

theorem atMost_zero (negative : Bool) (k : Int) : AtMost k (zero negative) := by
  refine ⟨proper_zero negative, ?_⟩
  simp only [magnitude, zero, Nat.cast_zero, zero_mul]
  positivity

/-! ## Rounding -/

theorem lt_overflow (hk : k ≤ 1022) (h : (num : ℚ) / den ≤ 2 ^ k + 2 ^ (k - 54)) :
    (num : ℚ) / den < overflow := by
  have hone : (2 : ℚ) ^ k ≤ 2 ^ (1022 : ℤ) := zpow_le_zpow_right₀ one_le_two hk
  have htwo : (2 : ℚ) ^ (k - 54) ≤ 2 ^ (968 : ℤ) := zpow_le_zpow_right₀ one_le_two (by omega)
  have hsplit : (2 : ℚ) ^ (1022 : ℤ) = 2 ^ 54 * 2 ^ (968 : ℤ) := zpow_add₀ two_ne_zero 54 968
  have hlast : (2 : ℚ) ^ (970 : ℤ) = 2 ^ 2 * 2 ^ (968 : ℤ) := zpow_add₀ two_ne_zero 2 968
  have hpos : (0 : ℚ) < 2 ^ (968 : ℤ) := by positivity
  rw [overflow, hlast]
  rw [hsplit] at hone
  clear hsplit hlast
  generalize (2 : ℚ) ^ (968 : ℤ) = p at *
  linarith

/-- The mantissa of a number below a power of two is at most that power. -/
theorem rounded_le_of_lt (hnum : 0 < num) (hden : 0 < den) (hk : 0 ≤ k)
    (h : (num : ℚ) / den < 2 ^ k) : (rounded num den : ℚ) * 2 ^ unit num den ≤ 2 ^ k := by
  have hlog : log2Ratio num den < k := by
    have hlt := (log2Ratio_spec hnum hden).1.trans_lt h
    exact (zpow_lt_zpow_iff_right₀ one_lt_two).1 hlt
  have hunit : unit num den ≤ k - 53 := by
    unfold unit minExponent
    omega
  have hrounded : (rounded num den : ℚ) ≤ 2 ^ 53 := by exact_mod_cast roundDiv_le hnum hden
  calc (rounded num den : ℚ) * 2 ^ unit num den ≤ 2 ^ 53 * 2 ^ (k - 53) := by
        gcongr
        exact one_le_two
    _ = 2 ^ k := by
        rw [← zpow_natCast, ← zpow_add₀ two_ne_zero]
        congr 1
        omega

/-- What exceeds a power of two by less than half a unit in the last place is lost. -/
theorem rounded_le_of_le (hnum : 0 < num) (hden : 0 < den) (hk : 0 ≤ k)
    (hlow : 2 ^ k ≤ (num : ℚ) / den) (h : (num : ℚ) / den ≤ 2 ^ k + 2 ^ (k - 54)) :
    (rounded num den : ℚ) * 2 ^ unit num den ≤ 2 ^ k := by
  have hpos : (0 : ℚ) < 2 ^ (k - 54) := by positivity
  have hpower : (2 : ℚ) ^ k = 2 ^ 54 * 2 ^ (k - 54) := by
    rw [← zpow_natCast, ← zpow_add₀ two_ne_zero]
    congr 1
    omega
  have hunit : unit num den = k - 52 := by
    obtain ⟨hlog, hlog'⟩ := log2Ratio_spec hnum hden
    have hle : k < log2Ratio num den + 1 :=
      (zpow_lt_zpow_iff_right₀ one_lt_two).1 (hlow.trans_lt hlog')
    have hge : log2Ratio num den < k + 1 := by
      refine (zpow_lt_zpow_iff_right₀ one_lt_two).1 ((hlog.trans h).trans_lt ?_)
      rw [zpow_add_one₀ two_ne_zero, hpower]
      linarith
    unfold unit minExponent
    omega
  have hscale : (2 : ℚ) ^ (k - 52) = 4 * 2 ^ (k - 54) := by
    have hsplit : k - 52 = 2 + (k - 54) := by omega
    rw [hsplit, zpow_add₀ two_ne_zero]
    norm_num
  have hnear : |(rounded num den : ℚ) * 2 ^ unit num den - num / den| ≤ 2 ^ unit num den / 2 :=
    abs_mul_unit_sub_le hden num (unit num den)
  rw [abs_le] at hnear
  have hupper : (rounded num den : ℚ) * 2 ^ unit num den ≤ num / den + 2 ^ unit num den / 2 := by
    linarith [hnear.2]
  rw [hunit, hscale] at hupper ⊢
  rw [hpower] at h ⊢
  generalize (2 : ℚ) ^ (k - 54) = p at *
  have hlt : (rounded num den : ℚ) * (4 * p) < (2 ^ 52 + 1) * (4 * p) := by linarith
  have hrounded : (rounded num den : ℚ) < 2 ^ 52 + 1 :=
    lt_of_mul_lt_mul_right hlt (by linarith)
  have hnat : rounded num den < 2 ^ 52 + 1 := by exact_mod_cast hrounded
  have hle : (rounded num den : ℚ) ≤ 2 ^ 52 := by exact_mod_cast Nat.le_of_lt_succ hnat
  calc (rounded num den : ℚ) * (4 * p) ≤ 2 ^ 52 * (4 * p) := by gcongr
    _ = 2 ^ 54 * p := by ring

theorem atMost_nearest (negative : Bool) (hden : 0 < den) (hk : 0 ≤ k) (hk' : k ≤ 1022)
    (h : (num : ℚ) / den ≤ 2 ^ k + 2 ^ (k - 54)) : AtMost k (nearest negative num den) := by
  rcases Nat.eq_zero_or_pos num with rfl | hnum
  · have hzero : nearest negative 0 den = zero negative := if_pos rfl
    exact hzero ▸ atMost_zero negative k
  · obtain ⟨hproper, hmagnitude⟩ := nearest_of_lt negative hnum hden (lt_overflow hk' h)
    refine ⟨hproper, hmagnitude ▸ ?_⟩
    by_cases hlow : 2 ^ k ≤ (num : ℚ) / den
    · exact rounded_le_of_le hnum hden hk hlow h
    · exact rounded_le_of_lt hnum hden hk (not_le.1 hlow)

theorem atMost_nearestScaled (negative : Bool) (hden : 0 < den) (hk : 0 ≤ k) (hk' : k ≤ 1022)
    (h : (num : ℚ) / den * 2 ^ e ≤ 2 ^ k + 2 ^ (k - 54)) :
    AtMost k (nearestScaled negative num den e) := by
  have hratio := unscale_ratio num den (-e)
  rw [neg_neg] at hratio
  rw [← hratio] at h
  exact atMost_nearest negative (unscale_den_pos hden num (-e)) hk hk' h

/-! ## Operations -/

theorem atMost_ofInt {i : Int} (hk : 0 ≤ k) (hk' : k ≤ 1022) (h : (i.natAbs : ℚ) ≤ 2 ^ k) :
    AtMost k (ofInt i) := by
  refine atMost_nearest _ one_pos hk hk' ?_
  have hpos : (0 : ℚ) < 2 ^ (k - 54) := by positivity
  rw [Nat.cast_one, div_one]
  linarith

theorem inUnits_abs (he : e ≤ x.exponent) : |(x.inUnits e : ℚ)| * 2 ^ e = x.magnitude := by
  have habs : |(x.inUnits e : ℚ)| = x.mantissa * 2 ^ (x.exponent - e).toNat := by
    have hcast : ((x.mantissa <<< (x.exponent - e).toNat : Nat) : ℚ) =
        x.mantissa * 2 ^ (x.exponent - e).toNat := by
      rw [Nat.shiftLeft_eq]
      push_cast
      rfl
    rw [← hcast]
    simp only [inUnits]
    split
    · rw [Int.cast_neg, abs_neg, Int.cast_natCast, Nat.abs_cast]
    · rw [Int.cast_natCast, Nat.abs_cast]
  rw [habs, magnitude, mul_assoc, ← zpow_natCast, ← zpow_add₀ two_ne_zero]
  congr 2
  omega

/-- A term that is too small to count does not lift a sum above its bound. -/
theorem AtMost.add (hx : AtMost k x) (hy : AtMost (k - 54) y) (hk : 0 ≤ k) (hk' : k ≤ 1022) :
    AtMost k (x.add y) := by
  refine atMost_nearestScaled _ one_pos hk hk' ?_
  have hsum := abs_add_le (x.inUnits (min x.exponent y.exponent) : ℚ)
    (y.inUnits (min x.exponent y.exponent))
  have hx' := inUnits_abs (min_le_left x.exponent y.exponent)
  have hy' := inUnits_abs (min_le_right x.exponent y.exponent)
  have hpos : (0 : ℚ) < 2 ^ min x.exponent y.exponent := by positivity
  rw [Nat.cast_one, div_one, Nat.cast_natAbs, Int.cast_abs, Int.cast_add]
  calc |(x.inUnits (min x.exponent y.exponent) : ℚ) + y.inUnits (min x.exponent y.exponent)| *
        2 ^ min x.exponent y.exponent
      ≤ (|(x.inUnits (min x.exponent y.exponent) : ℚ)| +
          |(y.inUnits (min x.exponent y.exponent) : ℚ)|) * 2 ^ min x.exponent y.exponent := by
        gcongr
    _ = x.magnitude + y.magnitude := by rw [add_mul, hx', hy']
    _ ≤ 2 ^ k + 2 ^ (k - 54) := add_le_add hx.le hy.le

/-- Terms that all are small have a sum that stays below the bound. -/
theorem AtMost.foldl_add {xs : List Binary64} (hx : AtMost k x) (hxs : ∀ y ∈ xs, AtMost (k - 54) y)
    (hk : 0 ≤ k) (hk' : k ≤ 1022) : AtMost k (xs.foldl Binary64.add x) := by
  induction xs generalizing x with
  | nil => exact hx
  | cons y ys ih =>
    obtain ⟨hy, hys⟩ := List.forall_mem_cons.1 hxs
    exact ih (hx.add hy hk hk') hys

/-- A number from one on is rounded to more than its half. -/
theorem AtMost.div_ofNat (hx : AtMost k x) (hn : 1 ≤ n) (hlt : (n : ℚ) < overflow) (hk : 0 ≤ k)
    (hk' : k ≤ 1021) : AtMost (k + 1) (x.div (ofNat n)) := by
  have hone : (1 : ℚ) ≤ n := by exact_mod_cast hn
  have hhalf : 1 / 2 ≤ (ofNat n).magnitude := by
    have hlow := (bounds_ofNat hn hlt).1
    linarith
  have hmantissa : 0 < (ofNat n).mantissa := by
    refine Nat.pos_of_ne_zero fun hzero => ?_
    rw [magnitude, hzero, Nat.cast_zero, zero_mul] at hhalf
    norm_num at hhalf
  refine atMost_nearestScaled _ hmantissa (by omega) (by omega) ?_
  have hratio : (x.mantissa : ℚ) / (ofNat n).mantissa * 2 ^ (x.exponent - (ofNat n).exponent) =
      x.magnitude / (ofNat n).magnitude := by
    rw [magnitude, magnitude, zpow_sub₀ two_ne_zero, mul_div_mul_comm]
  have hpos : (0 : ℚ) < 2 ^ (k + 1 - 54) := by positivity
  have hquotient : x.magnitude / (ofNat n).magnitude ≤ 2 ^ k / (1 / 2) :=
    div_le_div₀ (by positivity) hx.le (by norm_num) hhalf
  rw [hratio, zpow_add_one₀ two_ne_zero]
  linarith

end MeterCheck.Binary64
