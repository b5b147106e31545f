import MeterCheck.Proofs.Verdict.Checked

/-!
# The numbers of a verdict

* `MeasureLength`: what a resolved signature allows for the length of a measure;
* `Checked.tally_eq_some_iff`, `expected_eq`: the length of a voice and the expected length;
* `Checked.sub_eq_some_iff`, `abs_sub_eq`, `le_tolerance_eq`: the difference between the two;
* `MeasureLength.add_tolerance`: the most that is accepted.
-/

namespace MeterCheck

open Beats (ofRat)

/-! ## Bounds -/

theorem num_lt_of_mul_lt {x : ℚ} {l : Nat} (hx : 0 ≤ x) (hl : x.den ∣ l) (hl0 : 0 < l)
    (h : x * l < 2 ^ 63) : x.num < 2 ^ 63 := by
  have hle : (x.den : ℚ) ≤ l := by exact_mod_cast Nat.le_of_dvd hl0 hl
  have hnum : (x.num : ℚ) < 2 ^ 63 := by
    rw [← Rat.mul_den_eq_num]
    exact lt_of_le_of_lt (mul_le_mul_of_nonneg_left hle hx) h
  exact_mod_cast hnum

theorem isWord_of_nonneg {n : Int} (h0 : 0 ≤ n) (h : n < 2 ^ 63) : IsWord n := by
  constructor <;> omega

/-- Induction on the terms: what fits over a common denominator fits in lowest terms. -/
theorem SumsFit.num_lt {x : ℚ} {xs : List ℚ} (h : SumsFit x xs) (hx : OnGrid x)
    (hxs : ∀ y ∈ xs, OnGrid y) (hnum : x.num < 2 ^ 63) : (x + xs.sum).num < 2 ^ 63 := by
  induction xs generalizing x with
  | nil =>
    rw [List.sum_nil, add_zero]
    exact hnum
  | cons y ys ih =>
    have hy := hxs y List.mem_cons_self
    rw [List.sum_cons, ← add_assoc]
    apply ih h.2 (hx.add hy) (fun z hz => hxs z (List.mem_cons_of_mem y hz))
    exact num_lt_of_mul_lt (hx.add hy).nonneg (Rat.add_den_dvd_lcm x y)
      (Nat.lcm_pos x.den_pos y.den_pos) h.1

/-- What a time signature allows for the length of a measure. -/
structure MeasureLength (e : ℚ) : Prop where
  pos : 0 < e
  num_lt : e.num < 2 ^ 34
  den_lt : e.den < 2 ^ 32

theorem TimeSignature.Proper.measureLength {s : TimeSignature} (h : s.Proper) :
    MeasureLength (s.numerator * 4 / s.denominator) := by
  have hn : (0 : ℚ) < s.numerator := by exact_mod_cast h.numerator_pos
  have hd : (0 : ℚ) < s.denominator := by exact_mod_cast h.denominator_pos
  have hdiv : (s.numerator * 4 / s.denominator : ℚ) =
      Rat.divInt (s.numerator * 4 : Nat) (s.denominator : Nat) := by
    rw [Rat.divInt_eq_div]
    push_cast
    rfl
  have hnum : ((s.numerator * 4 / s.denominator : ℚ).num) ∣ (s.numerator * 4 : Nat) := by
    rw [hdiv]
    exact Rat.num_dvd _ (by exact_mod_cast h.denominator_pos.ne')
  have hden : (((s.numerator * 4 / s.denominator : ℚ).den : Int)) ∣ (s.denominator : Nat) := by
    rw [hdiv]
    exact Rat.den_dvd _ _
  have hlt := h.numerator_lt
  have hpos := h.numerator_pos
  refine ⟨by positivity, ?_, ?_⟩
  · apply lt_of_le_of_lt (Int.le_of_dvd (by omega) hnum)
    omega
  · exact lt_of_le_of_lt (Nat.le_of_dvd h.denominator_pos (by exact_mod_cast hden))
      h.denominator_lt

/-! ## The sum of a voice -/

namespace Checked

theorem tally_eq_some_iff {events : List Event} {r : Beats}
    (h : ∀ e ∈ events, e.duration.WordSized) :
    tally events = some r ↔ (∀ e ∈ events, e.duration.Fits) ∧
      SumsFit 0 (events.map fun e => e.duration.length) ∧
      r = ofRat (events.map fun e => e.duration.length).sum := by
  have hgrid : ∀ x ∈ events.map fun e => e.duration.length, OnGrid x := by
    intro x hx
    obtain ⟨e, _, rfl⟩ := List.mem_map.1 hx
    exact e.duration.length_onGrid
  have hvalues (values : List Value) : (events.mapM fun e => value e.duration) = some values ↔
      (∀ e ∈ events, e.duration.Fits) ∧
        values = events.map fun e => ⟨ofRat e.duration.length, e.duration.value.recognized⟩ :=
    mapM_eq_some_iff fun e he _ => value_eq_some_iff (h e he)
  have hbeats : (events.map fun e => (⟨ofRat e.duration.length, e.duration.value.recognized⟩ :
      Value)).map Value.beats = (events.map fun e => e.duration.length).map ofRat := by
    rw [List.map_map, List.map_map]
    rfl
  rw [tally, Option.bind_eq_bind, Option.bind_eq_some_iff]
  constructor
  · rintro ⟨values, hread, htotal⟩
    obtain ⟨hfits, rfl⟩ := (hvalues values).1 hread
    rw [hbeats] at htotal
    exact ⟨hfits, (total_eq_some_iff hgrid).1 htotal⟩
  · rintro ⟨hfits, htotal⟩
    refine ⟨_, (hvalues _).2 ⟨hfits, rfl⟩, ?_⟩
    rw [hbeats]
    exact (total_eq_some_iff hgrid).2 htotal

theorem expected_of_pos {s : TimeSignature} (hn : s.numerator < 2 ^ 32)
    (hd : s.denominator < 2 ^ 32) (hpos : 0 < s.denominator) :
    expected s = some (ofRat (s.numerator * 4 / s.denominator)) := by
  have hword : word (s.numerator * 4) = some (s.numerator * 4 : Int) :=
    word_of_isWord (by constructor <;> omega)
  rw [expected, hword, Option.bind_eq_bind, Option.bind_some,
    make_of_pos (by constructor <;> omega) (by constructor <;> omega) (by omega)]
  push_cast
  rfl

theorem expected_eq {s : TimeSignature} (h : s.Proper) :
    expected s = some (ofRat (s.numerator * 4 / s.denominator)) :=
  expected_of_pos h.numerator_lt h.denominator_lt h.denominator_pos

end Checked

theorem TimeSignature.Proper.expected_eq {s : TimeSignature} (h : s.Proper) :
    s.expected = ofRat (s.numerator * 4 / s.denominator) :=
  Checked.expected_eq_of_checked (Checked.expected_eq h)

/-! ## The difference from the expected length -/

theorem den_tolerance : (1 / 1000 : ℚ).den = 1000 := by decide +kernel

theorem tolerance_eq : tolerance = ofRat (1 / 1000) := by decide +kernel

theorem Deviation.threshold_eq : threshold = ofRat (1 / 100) := by decide +kernel

section
variable {x e : ℚ}

theorem OnGrid.lcm_lt (hx : OnGrid x) (he : MeasureLength e) : x.den.lcm e.den < 2 ^ 36 := by
  have hle := Nat.lcm_le_mul x.den_pos e.den_pos
  have hx16 := hx.den_le
  have he32 := he.den_lt
  nlinarith

theorem MeasureLength.mul_lcm_lt (he : MeasureLength e) (hx : OnGrid x) :
    e * x.den.lcm e.den < 2 ^ 63 := by
  have hle : (x.den.lcm e.den : ℚ) ≤ e.den * 16 := by
    have h := (Nat.lcm_le_mul x.den_pos e.den_pos).trans (Nat.mul_le_mul_right e.den hx.den_le)
    rw [mul_comm] at h
    exact_mod_cast h
  have hnum : (e.num : ℚ) < 2 ^ 34 := by exact_mod_cast he.num_lt
  calc e * x.den.lcm e.den ≤ e * (e.den * 16) := mul_le_mul_of_nonneg_left hle he.pos.le
    _ = e.num * 16 := by rw [← mul_assoc, Rat.mul_den_eq_num]
    _ < 2 ^ 63 := by linarith

theorem num_abs_sub_lt (hx : OnGrid x) (he : MeasureLength e)
    (hfit : x * x.den.lcm e.den < 2 ^ 63) : |x - e|.num < 2 ^ 63 := by
  refine num_lt_of_mul_lt (l := x.den.lcm e.den) (abs_nonneg _) ?_
    (Nat.lcm_pos x.den_pos e.den_pos) ?_
  · rw [Rat.den_abs_eq_den]
    exact Rat.sub_den_dvd_lcm x e
  · have hle : |x - e| ≤ max x e := by
      rw [abs_le]
      have hx0 := hx.nonneg
      have he0 := he.pos
      have hleft := le_max_left x e
      have hright := le_max_right x e
      constructor <;> linarith
    apply lt_of_le_of_lt (mul_le_mul_of_nonneg_right hle (Nat.cast_nonneg _))
    rw [max_mul_of_nonneg _ _ (Nat.cast_nonneg _)]
    exact max_lt hfit (he.mul_lcm_lt hx)

theorem isWord_den_sub (hx : OnGrid x) (he : MeasureLength e) : IsWord (x - e).den := by
  have hle := Nat.le_of_dvd (Nat.lcm_pos x.den_pos e.den_pos) (Rat.sub_den_dvd_lcm x e)
  have hlt := hx.lcm_lt he
  constructor <;> omega

namespace MeasureLength

theorem isWord_num (he : MeasureLength e) : IsWord e.num := by
  have hnum := he.num_lt
  exact isWord_of_nonneg (Rat.num_nonneg.2 he.pos.le) (by omega)

theorem isWord_den (he : MeasureLength e) : IsWord (e.den : Int) := by
  have hden := he.den_lt
  constructor <;> omega

theorem add_tolerance (he : MeasureLength e) :
    Checked.add (ofRat e) tolerance = some (ofRat (e + 1 / 1000)) ∧
      IsWord (e + 1 / 1000).num ∧ IsWord ((e + 1 / 1000).den : Int) := by
  have hlt := he.den_lt
  have hlcm : e.den.lcm (1 / 1000 : ℚ).den ≤ e.den * 1000 := by
    rw [den_tolerance]
    exact Nat.lcm_le_mul e.den_pos (by decide)
  have hfit : (e + 1 / 1000) * e.den.lcm (1 / 1000 : ℚ).den < 2 ^ 63 := by
    have hle : (e.den.lcm (1 / 1000 : ℚ).den : ℚ) ≤ e.den * 1000 := by exact_mod_cast hlcm
    have hnum : (e.num : ℚ) < 2 ^ 34 := by exact_mod_cast he.num_lt
    have hdenq : (e.den : ℚ) < 2 ^ 32 := by exact_mod_cast hlt
    have hpos := he.pos
    calc (e + 1 / 1000) * e.den.lcm (1 / 1000 : ℚ).den
        ≤ (e + 1 / 1000) * (e.den * 1000) := mul_le_mul_of_nonneg_left hle (by positivity)
      _ = e * e.den * 1000 + e.den := by ring
      _ = e.num * 1000 + e.den := by rw [Rat.mul_den_eq_num]
      _ < 2 ^ 63 := by linarith
  have hdvd := Rat.add_den_dvd_lcm e (1 / 1000)
  have hlcm0 := Nat.lcm_pos e.den_pos (1 / 1000 : ℚ).den_pos
  have hpos : 0 ≤ e + 1 / 1000 := by
    have := he.pos
    positivity
  refine ⟨?_, isWord_of_nonneg (Rat.num_nonneg.2 hpos)
    (num_lt_of_mul_lt hpos hdvd hlcm0 hfit), ?_⟩
  · rw [tolerance_eq,
      Checked.add_ofRat_iff he.pos.le (by norm_num) (by rw [den_tolerance]; omega)]
    exact ⟨hfit, rfl⟩
  · have hle := Nat.le_of_dvd hlcm0 hdvd
    constructor <;> omega

end MeasureLength

namespace Checked

theorem sub_eq_some_iff (hx : OnGrid x) (hnum : x.num < 2 ^ 63) (he : MeasureLength e)
    {r : Beats} :
    sub (ofRat x) (ofRat e) = some r ↔ x * x.den.lcm e.den < 2 ^ 63 ∧ r = ofRat (x - e) := by
  have hden : x.den * e.den < 2 ^ 63 := by
    have hx16 := hx.den_le
    have he32 := he.den_lt
    nlinarith
  rw [sub_ofRat_iff hx.nonneg he.pos.le (isWord_of_nonneg (Rat.num_nonneg.2 hx.nonneg) hnum)
    he.isWord_num hden, and_iff_right (he.mul_lcm_lt hx)]

theorem abs_sub_eq (hx : OnGrid x) (he : MeasureLength e)
    (hfit : x * x.den.lcm e.den < 2 ^ 63) : abs (ofRat (x - e)) = some (ofRat |x - e|) := by
  have hlt := num_abs_sub_lt hx he hfit
  rw [Rat.num_abs_eq_abs_num, abs_lt] at hlt
  exact abs_ofRat hlt.1

theorem le_abs_sub_eq {y : ℚ} (hx : OnGrid x) (he : MeasureLength e)
    (hfit : x * x.den.lcm e.den < 2 ^ 63) (hn : IsWord y.num) (hd : IsWord (y.den : Int)) :
    le (ofRat |x - e|) (ofRat y) = some (decide (|x - e| ≤ y)) := by
  refine le_ofRat (isWord_of_nonneg (Rat.num_nonneg.2 (abs_nonneg _)) (num_abs_sub_lt hx he hfit))
    ?_ hn hd
  rw [Rat.den_abs_eq_den]
  exact isWord_den_sub hx he

theorem le_tolerance_eq (hx : OnGrid x) (he : MeasureLength e)
    (hfit : x * x.den.lcm e.den < 2 ^ 63) :
    le (ofRat |x - e|) tolerance = some (decide (|x - e| ≤ 1 / 1000)) := by
  rw [tolerance_eq, le_abs_sub_eq hx he hfit] <;> decide +kernel

theorem le_threshold_eq (hx : OnGrid x) (he : MeasureLength e)
    (hfit : x * x.den.lcm e.den < 2 ^ 63) :
    le (ofRat |x - e|) Deviation.threshold = some (decide (|x - e| ≤ 1 / 100)) := by
  rw [Deviation.threshold_eq, le_abs_sub_eq hx he hfit] <;> decide +kernel

end Checked

end

end MeterCheck
