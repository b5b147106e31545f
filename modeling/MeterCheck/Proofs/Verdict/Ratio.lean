import MeterCheck.Proofs.Verdict.Range

/-!
# The ratio of a signature

A measure is judged by its length, and signatures of one ratio have one length.

* `TimeSignature.Proper.reduced_expected`: the length is in lowest terms, over a positive
  denominator;
* `TimeSignature.expected_eq_iff`: two lengths are equal exactly if the ratios are;
* `Measure.judge_ratio`: so a verdict does not tell 6/8 from 3/4.
-/

namespace MeterCheck

open Beats (ofRat toRat)

namespace TimeSignature

variable {s s' : TimeSignature}

theorem Proper.reduced_expected (h : s.Proper) : s.expected.Reduced := by
  rw [h.expected_eq]
  exact Beats.reduced_ofRat _

theorem Proper.toRat_expected (h : s.Proper) :
    s.expected.toRat = s.numerator * 4 / s.denominator := by
  rw [h.expected_eq, Beats.toRat_ofRat]

theorem Proper.expected_pos (h : s.Proper) : 0 < s.expected.toRat := by
  rw [h.toRat_expected]
  exact h.measureLength.pos

/-- A fraction in lowest terms is told by its value, which cross-multiplication compares. -/
theorem expected_eq_iff (h : s.Proper) (h' : s'.Proper) : s'.expected = s.expected ↔
    s.numerator * s'.denominator = s'.numerator * s.denominator := by
  have hd : (s.denominator : ℚ) ≠ 0 := by exact_mod_cast h.denominator_pos.ne'
  have hd' : (s'.denominator : ℚ) ≠ 0 := by exact_mod_cast h'.denominator_pos.ne'
  calc s'.expected = s.expected
    _ ↔ s'.expected.toRat = s.expected.toRat :=
      ⟨congrArg toRat, h'.reduced_expected.eq_of_toRat_eq h.reduced_expected⟩
    _ ↔ (s'.numerator * 4 * s.denominator : ℚ) = s.numerator * 4 * s'.denominator := by
      rw [h.toRat_expected, h'.toRat_expected, div_eq_div_iff hd' hd]
    _ ↔ s'.numerator * 4 * s.denominator = s.numerator * 4 * s'.denominator := by norm_cast
    _ ↔ s.numerator * s'.denominator = s'.numerator * s.denominator := by
      constructor <;> intro heq <;> linarith

end TimeSignature

namespace Measure

/-- A verdict has its signature for a mark only. -/
theorem judge_of_expected_eq {s s' : TimeSignature} (h : s'.expected = s.expected) (m : Measure)
    (position : Position) (settings : Settings) : m.judge s' position settings =
      { m.judge s position settings with signature := s' } := by
  simp only [judge, h]

/--
**Only the ratio of a signature matters.** The length of a measure is computed without an overflow.
It is a positive number in lowest terms over a positive denominator: four times the ratio. Two
signatures of one ratio give the same result for any measure, but for the signature it names, and
two of different ratios give results with different lengths.
-/
theorem judge_ratio :
    (∀ s : TimeSignature, s.Proper → Checked.expected s = some s.expected ∧ s.expected.Reduced ∧
      s.expected.toRat = 4 * s.numerator / s.denominator ∧ 0 < s.expected.toRat ∧
      s.expected.le .zero = false) ∧
    ∀ s s' : TimeSignature, s.Proper → s'.Proper →
      (s.numerator * s'.denominator = s'.numerator * s.denominator →
        ∀ (m : Measure) position settings,
          m.judge s' position settings = { m.judge s position settings with signature := s' }) ∧
      (s.numerator * s'.denominator ≠ s'.numerator * s.denominator →
        ∀ (m : Measure) position settings,
          (m.judge s' position settings).expected ≠ (m.judge s position settings).expected) := by
  refine ⟨?length, ?pairs⟩
  case length =>
    intro s h
    have hchecked : Checked.expected s = some s.expected := by
      rw [h.expected_eq]
      exact Checked.expected_eq h
    have hvalue : s.expected.toRat = 4 * s.numerator / s.denominator := by
      rw [h.toRat_expected, mul_comm]
    have hordered : Beats.Ordered [s.expected, .zero] :=
      Beats.ordered_of_pos (by simpa using ⟨h.reduced_expected.denom_pos, Int.one_pos⟩)
    have hpos := h.expected_pos
    refine ⟨hchecked, h.reduced_expected, hvalue, hpos, ?_⟩
    rw [← Bool.not_eq_true, hordered s.expected (by simp) .zero (by simp), Beats.zero_eq_ofRat,
      Beats.toRat_ofRat]
    exact not_le.2 hpos
  case pairs =>
    intro s s' h h'
    refine ⟨fun hratio m position settings => ?_, fun hratio m position settings => ?_⟩
    · exact judge_of_expected_eq ((TimeSignature.expected_eq_iff h h').2 hratio) m position settings
    · exact fun heq => hratio ((TimeSignature.expected_eq_iff h h').1 heq)

/-- Six eighths are judged as three quarters, the longest measure not as the next shorter one. -/
theorem judge_ratio_of_eighths :
    let m : Measure := .empty (.number 1) none
    let long : TimeSignature := ⟨4294967295, 1⟩
    let shorter : TimeSignature := ⟨4294967294, 1⟩
    TimeSignature.Proper ⟨3, 4⟩ ∧ TimeSignature.Proper ⟨6, 8⟩ ∧ long.Proper ∧ shorter.Proper ∧
      m.judge ⟨6, 8⟩ .first .default =
        { m.judge ⟨3, 4⟩ .first .default with signature := ⟨6, 8⟩ } ∧
      Checked.expected long = some ⟨17179869180, 1⟩ ∧
      (m.judge shorter .middle .default).expected ≠ (m.judge long .middle .default).expected := by
  intro m long shorter
  have hthree : TimeSignature.Proper ⟨3, 4⟩ := by constructor <;> decide
  have hsix : TimeSignature.Proper ⟨6, 8⟩ := by constructor <;> decide
  have hlong : long.Proper := by constructor <;> decide
  have hshorter : shorter.Proper := by constructor <;> decide
  obtain ⟨hlength, hpairs⟩ := judge_ratio
  have hvalue : long.expected = ⟨17179869180, 1⟩ := by decide +kernel
  refine ⟨hthree, hsix, hlong, hshorter, ?_, ?_, ?_⟩
  · exact (hpairs _ _ hthree hsix).1 (by decide) m .first .default
  · rw [← hvalue]
    exact (hlength long hlong).1
  · exact (hpairs _ _ hlong hshorter).2 (by decide) m .middle .default

end Measure

end MeterCheck
