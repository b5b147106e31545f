import MeterCheck.Binary64.Decimal
import MeterCheck.Proofs.Binary64.Rounding

/-!
# The digits of the shortest text

* `Cell.integer?_spec`, `Cell.firstDigit_spec`: what the two searches find;
* `shortest_spec`: the digits of a finite double are within its cell, and the exponent is at most
  that of the largest double.
-/

namespace MeterCheck.Binary64

variable {c : Cell} {n : Nat} {k : Int} {x : Binary64}

/-! ## Cells -/

namespace Cell

theorem inUnits_value (c : Cell) (j : Int) :
    ((c.inUnits j).value : ℚ) / (c.inUnits j).denominator =
      c.value / c.denominator * 10 ^ (-j) := by
  simp only [inUnits, Nat.pow_eq, Nat.cast_mul, Nat.cast_pow, Nat.cast_ofNat]
  rw [mul_div_mul_comm, zpow_neg_toNat (by norm_num)]

theorem inUnits_upper (c : Cell) (j : Int) :
    ((c.inUnits j).upper : ℚ) / (c.inUnits j).denominator =
      c.upper / c.denominator * 10 ^ (-j) := by
  simp only [inUnits, Nat.pow_eq, Nat.cast_mul, Nat.cast_pow, Nat.cast_ofNat]
  rw [mul_div_mul_comm, zpow_neg_toNat (by norm_num)]

theorem inUnits_denominator_pos (h : 0 < c.denominator) (j : Int) :
    0 < (c.inUnits j).denominator := by
  simp only [inUnits, Nat.pow_eq]
  positivity

theorem le_upper_of_holds (hden : 0 < c.denominator) (h : c.holds n = true) :
    (n : ℚ) ≤ c.upper / c.denominator := by
  have hle : n * c.denominator ≤ c.upper := by
    simp only [holds] at h
    split at h
    · exact (Bool.and_eq_true_iff.1 h).2 |> of_decide_eq_true
    · exact ((Bool.and_eq_true_iff.1 h).2 |> of_decide_eq_true).le
  rw [le_div_iff₀ (by exact_mod_cast hden)]
  exact_mod_cast hle

/-- The number found is in the cell, and not below the whole part of the value. -/
theorem integer?_spec (h : c.integer? = some n) :
    c.holds n = true ∧ c.value / c.denominator ≤ n := by
  simp only [integer?] at h
  split_ifs at h with hfloor hnext hnext
  · cases h
    rcases roundDiv_cases c.value c.denominator with heq | heq
    · rw [heq]
      exact ⟨hfloor, le_rfl⟩
    · rw [heq]
      exact ⟨hnext, Nat.le_succ _⟩
  · cases h
    exact ⟨hfloor, le_rfl⟩
  · cases h
    exact ⟨hnext, Nat.le_succ _⟩

/-- The value is at least `10 ^ k`. -/
def Reaches (c : Cell) (k : Int) : Prop := (10 : ℚ) ^ k ≤ c.value / c.denominator

theorem reaches_iff (hden : 0 < c.denominator) (k : Int) :
    decide (c.denominator * Nat.pow 10 k.toNat ≤ c.value * Nat.pow 10 (-k).toNat) = true ↔
      c.Reaches k := by
  have hpos : (0 : ℚ) < c.denominator := by exact_mod_cast hden
  have hpower : (0 : ℚ) < 10 ^ (-k).toNat := by positivity
  have hquotient := zpow_neg_toNat (by norm_num : (10 : ℚ) ≠ 0) (-k)
  rw [neg_neg] at hquotient
  rw [decide_eq_true_iff, Reaches, ← hquotient, div_le_div_iff₀ hpower hpos, Nat.pow_eq,
    Nat.pow_eq, ← Nat.cast_le (α := ℚ)]
  push_cast
  rw [mul_comm]

/-- `1233 / 4096` is just below the decimal logarithm of two. -/
theorem ten_pow_le_two_pow {g l : Nat} (h : 4096 * g ≤ 1233 * l) : 10 ^ g ≤ 2 ^ l := by
  have hbase : 10 ^ 1233 ≤ 2 ^ 4096 := by decide +kernel
  rw [← Nat.pow_le_pow_iff_left (by decide : 4096 ≠ 0)]
  calc (10 ^ g) ^ 4096 = 10 ^ (4096 * g) := by rw [← pow_mul, mul_comm]
    _ ≤ 10 ^ (1233 * l) := Nat.pow_le_pow_right (by decide) h
    _ = (10 ^ 1233) ^ l := pow_mul ..
    _ ≤ (2 ^ 4096) ^ l := Nat.pow_le_pow_left hbase l
    _ = (2 ^ l) ^ 4096 := by rw [← pow_mul, ← pow_mul, mul_comm]

/-- From one on the first digit is found exactly. -/
theorem firstDigit_spec (hvalue : 0 < c.value) (hden : 0 < c.denominator)
    (hlt : (c.value : ℚ) / c.denominator < 2 ^ (1024 : ℤ)) :
    c.firstDigit ≤ 308 ∧ (1 ≤ c.firstDigit → c.Reaches c.firstDigit) := by
  obtain ⟨hlow, -⟩ := log2Ratio_spec hvalue hden
  have hlog : log2Ratio c.value c.denominator < 1024 :=
    (zpow_lt_zpow_iff_right₀ one_lt_two).1 (hlow.trans_lt hlt)
  simp only [firstDigit]
  generalize hguess : log2Ratio c.value c.denominator * 1233 / 4096 = guess
  split_ifs with hnext hhere
  · exact ⟨by omega, fun _ => (reaches_iff hden _).1 hnext⟩
  · exact ⟨by omega, fun _ => (reaches_iff hden _).1 hhere⟩
  · refine ⟨by omega, fun hk => absurd ((reaches_iff hden guess).2 ?_) hhere⟩
    obtain ⟨g, rfl⟩ := Int.eq_ofNat_of_zero_le (by omega : 0 ≤ guess)
    obtain ⟨l, hl⟩ := Int.eq_ofNat_of_zero_le (by omega : 0 ≤ log2Ratio c.value c.denominator)
    have hpow : 10 ^ g ≤ 2 ^ l := ten_pow_le_two_pow (by omega)
    have hcast : (10 : ℚ) ^ g ≤ 2 ^ l := by exact_mod_cast hpow
    rw [hl, zpow_natCast] at hlow
    rw [Reaches, zpow_natCast]
    exact hcast.trans hlow

end Cell

theorem cell_denominator_pos (x : Binary64) : 0 < x.cell.denominator := by
  simp only [cell, Nat.shiftLeft_eq]
  positivity

theorem cell_value (x : Binary64) : (x.cell.value : ℚ) / x.cell.denominator = x.magnitude := by
  have hscale := zpow_neg_toNat (two_ne_zero (α := ℚ)) (2 - x.exponent)
  rw [neg_sub] at hscale
  simp only [cell, Nat.shiftLeft_eq, Nat.cast_mul, Nat.cast_pow, Nat.cast_ofNat, one_mul]
  rw [mul_div_assoc, hscale, magnitude, zpow_sub₀ two_ne_zero]
  norm_num
  ring

/-- The midpoint to the next double. -/
theorem cell_upper (x : Binary64) :
    (x.cell.upper : ℚ) / x.cell.denominator = (2 * x.mantissa + 1) * 2 ^ (x.exponent - 1) := by
  have hscale := zpow_neg_toNat (two_ne_zero (α := ℚ)) (2 - x.exponent)
  rw [neg_sub] at hscale
  simp only [cell, Nat.shiftLeft_eq, Nat.cast_mul, Nat.cast_pow, Nat.cast_add, Nat.cast_ofNat,
    one_mul]
  rw [mul_div_assoc, hscale, zpow_sub₀ two_ne_zero, zpow_sub₀ two_ne_zero]
  norm_num
  ring

theorem cell_value_pos (h : 0 < x.mantissa) : 0 < x.cell.value := by
  simp only [cell, Nat.shiftLeft_eq]
  positivity

theorem Proper.exponent_lt (h : x.Proper) : x.exponent - 1 ≤ 970 := by
  have hle : x.exponent ≤ 971 := h.exponent_le
  omega

theorem Proper.upper_lt (h : x.Proper) :
    (2 * x.mantissa + 1) * (2 : ℚ) ^ (x.exponent - 1) < 2 ^ (1024 : ℤ) := by
  have hmantissa : (x.mantissa : ℚ) + 1 ≤ 2 ^ 53 := by exact_mod_cast h.mantissa_lt
  calc (2 * x.mantissa + 1) * (2 : ℚ) ^ (x.exponent - 1)
      < 2 ^ 54 * (2 : ℚ) ^ (x.exponent - 1) := by
        gcongr
        linarith
    _ ≤ 2 ^ 54 * (2 : ℚ) ^ (970 : ℤ) := by
        gcongr
        · exact one_le_two
        · exact h.exponent_lt
    _ = 2 ^ (1024 : ℤ) := (zpow_add₀ two_ne_zero 54 970).symm

theorem Proper.magnitude_lt (h : x.Proper) : x.magnitude < 2 ^ (1024 : ℤ) := by
  refine lt_trans ?_ h.upper_lt
  rw [magnitude, zpow_sub_one₀ two_ne_zero]
  have hpos : (0 : ℚ) < 2 ^ x.exponent := by positivity
  linarith

/-- What the search for the fewest digits returns. -/
theorem shortest_cases (x : Binary64) :
    x.shortest = ⟨0, 0⟩ ∨ ∃ n : Nat, n < 17 ∧ ∃ digits,
      (x.cell.inUnits (x.cell.firstDigit - n)).integer? = some digits ∧
      x.shortest = if digits = 10 ^ (n + 1) then ⟨1, x.cell.firstDigit + 1⟩
        else ⟨digits, x.cell.firstDigit⟩ := by
  simp only [shortest]
  cases hfound : (List.range 17).findSome? fun n : Nat =>
      (x.cell.inUnits (x.cell.firstDigit - n)).integer?.map fun digits =>
        if digits = Nat.pow 10 (n + 1) then (⟨1, x.cell.firstDigit + 1⟩ : Decimal)
        else ⟨digits, x.cell.firstDigit⟩ with
  | none => exact .inl rfl
  | some d =>
    obtain ⟨n, hn, hd⟩ := List.exists_of_findSome?_eq_some hfound
    obtain ⟨digits, hdigits, rfl⟩ := Option.map_eq_some_iff.1 hd
    exact .inr ⟨n, List.mem_range.1 hn, digits, hdigits, rfl⟩

theorem two_zpow_lt_ten_zpow : (2 : ℚ) ^ (1024 : ℤ) < 10 ^ (309 : ℤ) := by
  have hlt : 2 ^ 1024 < 10 ^ 309 := by decide +kernel
  rw [zpow_ofNat, zpow_ofNat]
  exact_mod_cast hlt

/-- What is known of a shortest decimal. In the top decade its number of digits is known too. -/
structure Decimal.Shortest (d : Decimal) (x : Binary64) : Prop where
  exponent_le : d.exponent ≤ 308
  digits_pos : 1 ≤ d.exponent → 0 < d.digits
  top : d.exponent = 308 → ∃ places ≤ 308, 10 ^ places ≤ d.digits ∧ d.digits < 10 ^ (places + 1) ∧
    (d.digits : ℚ) * 10 ^ (308 - places) ≤ (2 * x.mantissa + 1) * 2 ^ (x.exponent - 1)

section

variable {digits : Nat}

/-- A number found among those with `n` places is below the midpoint to the next double. -/
theorem le_upper_of_integer? (h : (x.cell.inUnits (k - n)).integer? = some digits) :
    (digits : ℚ) * 10 ^ (k - n) ≤ (2 * x.mantissa + 1) * 2 ^ (x.exponent - 1) := by
  have hupper := Cell.le_upper_of_holds
    (Cell.inUnits_denominator_pos (cell_denominator_pos x) (k - n)) (Cell.integer?_spec h).1
  rw [Cell.inUnits_upper, cell_upper, zpow_neg, ← div_eq_mul_inv, le_div_iff₀ (by positivity)]
    at hupper
  exact hupper

/-- It has a digit in each of these places if the first one is not zero. -/
theorem pow_le_of_integer? (hk : x.cell.Reaches k)
    (h : (x.cell.inUnits (k - n)).integer? = some digits) : 10 ^ n ≤ digits := by
  refine le_trans ?_ (Cell.integer?_spec h).2
  have hden := Cell.inUnits_denominator_pos (cell_denominator_pos x) (k - n)
  have hvalue : (10 : ℚ) ^ n ≤
      (x.cell.inUnits (k - n)).value / (x.cell.inUnits (k - n)).denominator := by
    rw [Cell.inUnits_value]
    calc (10 : ℚ) ^ n = 10 ^ k * 10 ^ (-(k - n)) := by
          rw [← zpow_add₀ (by norm_num), ← zpow_natCast]
          congr 1
          ring
      _ ≤ x.cell.value / x.cell.denominator * 10 ^ (-(k - n)) := by
          gcongr
          exact hk
  rw [le_div_iff₀ (by exact_mod_cast hden)] at hvalue
  rw [Nat.le_div_iff_mul_le hden]
  exact_mod_cast hvalue

end

theorem shortest_spec (hx : x.Proper) (hpos : 0 < x.mantissa) : x.shortest.Shortest x := by
  have hlt : (x.cell.value : ℚ) / x.cell.denominator < 2 ^ (1024 : ℤ) :=
    (cell_value x).symm ▸ hx.magnitude_lt
  have htop := hx.upper_lt.trans two_zpow_lt_ten_zpow
  obtain ⟨hle, hreaches⟩ :=
    Cell.firstDigit_spec (cell_value_pos hpos) (cell_denominator_pos x) hlt
  rcases shortest_cases x with hzero | ⟨n, hn, digits, hdigits, hshortest⟩
  · rw [hzero]
    exact ⟨by norm_num, by simp, by simp⟩
  · generalize x.cell.firstDigit = k at *
    have hupper := le_upper_of_integer? hdigits
    rw [hshortest]
    split_ifs with hcarry
    · have hpower : (10 : ℚ) ^ (k + 1) ≤ (2 * x.mantissa + 1) * 2 ^ (x.exponent - 1) := by
        refine le_trans (le_of_eq ?_) hupper
        rw [hcarry, Nat.cast_pow, Nat.cast_ofNat, ← zpow_natCast, ← zpow_add₀ (by norm_num)]
        congr 1
        push_cast
        ring
      have hk : k + 1 < 309 := (zpow_lt_zpow_iff_right₀ (by norm_num)).1 (hpower.trans_lt htop)
      refine ⟨by simp only; omega, fun _ => one_pos,
        fun hk308 => ⟨0, by omega, by simp, by simp, ?_⟩⟩
      change k + 1 = 308 at hk308
      rw [hk308] at hpower
      simpa using hpower
    · refine ⟨hle, fun hk => ?_, fun hk308 => ?_⟩
      · exact lt_of_lt_of_le (by positivity) (pow_le_of_integer? (hreaches hk) hdigits)
      · change k = 308 at hk308
        subst hk308
        have hpower : (308 : Int) - n = (308 - n : Nat) := by omega
        rw [hpower, zpow_natCast] at hupper
        refine ⟨n, by omega, pow_le_of_integer? (hreaches (by norm_num)) hdigits, ?_, hupper⟩
        have hsplit : (10 : ℚ) ^ (309 : ℤ) = 10 ^ (n + 1) * 10 ^ (308 - n) := by
          rw [zpow_ofNat, ← pow_add]
          congr 1
          omega
        have hcast := hupper.trans_lt htop
        rw [hsplit] at hcast
        have hdigit := lt_of_mul_lt_mul_right hcast (by positivity)
        exact_mod_cast hdigit

end MeterCheck.Binary64
