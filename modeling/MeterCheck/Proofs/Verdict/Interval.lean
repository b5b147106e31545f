import MeterCheck.Proofs.Verdict.Finite
import MeterCheck.Proofs.Verdict.Range
import Mathlib.Order.Interval.Set.Basic

/-!
# Verdicts as interval tests

* `Arithmetic`: the operations of a verdict. `Arithmetic.words` are those that run, and
  `Arithmetic.rational` those of rational numbers;
* `isValid_rational_iff_mem`: in rational numbers the rule accepts one closed interval of lengths;
* `isValid_words_eq`: what runs decides as the rational numbers do, unless it overflows or the least
  length is out of order;
* `Measure.judge_interval`: so every result is consistent in itself, and its verdict is a test of
  that interval.
-/

namespace MeterCheck

open Beats (ofRat toRat)

/-! ## Arithmetic -/

/-- The operations on numbers of beats that a verdict is made with. -/
structure Arithmetic (α : Type) where
  add : α → α → α
  sub : α → α → α
  abs : α → α
  le : α → α → Bool
  tolerance : α

namespace Arithmetic

variable {α : Type} (A : Arithmetic α)

def min (a b : α) : α := if A.le a b then a else b

def error (actual expected : α) : α := A.abs (A.sub actual expected)

def isValid (position : Position) (least actual expected : α) : Bool :=
  A.le (A.error actual expected) A.tolerance
    || (position.isBoundary
      && A.le (A.min least expected) actual
      && A.le actual (A.add expected A.tolerance))

/-- Fractions of words, which wrap around. -/
def words : Arithmetic Beats := ⟨(· + ·), (· - ·), Beats.abs, Beats.le, MeterCheck.tolerance⟩

def rational : Arithmetic ℚ := ⟨(· + ·), (· - ·), (|·|), fun x y => decide (x ≤ y), 1 / 1000⟩

end Arithmetic

open Arithmetic (words rational)

/-- A voice is judged by the rule for words. -/
theorem judgeVoice_eq (events : List Event) (expected : Beats) (position : Position)
    (settings : Settings) : judgeVoice events expected position settings =
      { duration := (tally events).total
        error := words.error (tally events).total expected
        valid := words.isValid position settings.minimumPartial (tally events).total expected
        unrecognized := (tally events).unrecognized } := rfl

/-! ## The interval -/

section

variable {position : Position} {least x e : ℚ}

/-- The lower end: the least length counts in a boundary measure, if it is below the tolerance. -/
def lowest (position : Position) (least e : ℚ) : ℚ :=
  if position.isBoundary then min least (e - 1 / 1000) else e - 1 / 1000

/-- The lengths that are accepted where `e` beats are expected. -/
def accepted (position : Position) (least e : ℚ) : Set ℚ :=
  Set.Icc (lowest position least e) (e + 1 / 1000)

theorem isValid_rational_iff : rational.isValid position least x e = true ↔
    |x - e| ≤ 1 / 1000 ∨
      position.isBoundary = true ∧ (least ≤ x ∨ e ≤ x) ∧ x ≤ e + 1 / 1000 := by
  have hmin : rational.min least e = min least e := by
    simp only [Arithmetic.min, rational, decide_eq_true_eq]
    exact (min_def least e).symm
  simp only [Arithmetic.isValid, hmin]
  simp only [rational, Arithmetic.error, Bool.or_eq_true, Bool.and_eq_true, decide_eq_true_eq,
    min_le_iff, and_assoc]

theorem abs_sub_le_iff_mem : |x - e| ≤ 1 / 1000 ↔ x ∈ Set.Icc (e - 1 / 1000) (e + 1 / 1000) := by
  rw [abs_le, Set.mem_Icc]
  constructor
  · rintro ⟨hlow, hhigh⟩
    constructor <;> linarith
  · rintro ⟨hlow, hhigh⟩
    constructor <;> linarith

/-- The two tests leave no gap between them, and neither of them reaches further up. -/
theorem isValid_rational_iff_mem :
    rational.isValid position least x e = true ↔ x ∈ accepted position least e := by
  rw [isValid_rational_iff, abs_sub_le_iff_mem, accepted, lowest, Set.mem_Icc, Set.mem_Icc]
  by_cases hb : position.isBoundary = true
  · rw [if_pos hb, and_iff_right hb, min_le_iff]
    constructor
    · rintro (⟨hlow, hhigh⟩ | ⟨hleast | hlong, hhigh⟩)
      · exact ⟨.inr hlow, hhigh⟩
      · exact ⟨.inl hleast, hhigh⟩
      · exact ⟨.inr (by linarith), hhigh⟩
    · rintro ⟨hleast | hlow, hhigh⟩
      · exact .inr ⟨.inl hleast, hhigh⟩
      · exact .inl ⟨hlow, hhigh⟩
  · rw [if_neg hb, or_iff_left fun h => hb h.1]

theorem band_subset_accepted (position : Position) (least e : ℚ) :
    Set.Icc (e - 1 / 1000) (e + 1 / 1000) ⊆ accepted position least e := by
  apply Set.Icc_subset_Icc_left
  unfold lowest
  split
  · exact min_le_right _ _
  · exact le_refl _

theorem not_mem_accepted_of_long (h : e + 1 / 1000 < x) : x ∉ accepted position least e :=
  fun hmem => absurd hmem.2 (not_le.2 h)

end

/-! ## What runs -/

/-- The size of the difference, stopped at the first operation that leaves the words. -/
def Checked.error (actual expected : Beats) : Option Beats := do abs (← sub actual expected)

section

variable {actual expected least : Beats} {position : Position} {e : ℚ}

/-- An error that is not stopped is the one of rational numbers. -/
theorem error_words_eq (ha : 0 < actual.denom) (he : 0 < expected.denom)
    (h : (Checked.error actual expected).isSome = true) :
    words.error actual expected = ofRat (rational.error actual.toRat expected.toRat) := by
  obtain ⟨r, hr⟩ := Option.isSome_iff_exists.1 h
  obtain ⟨d, hd, habs⟩ := Option.bind_eq_some_iff.1 hr
  have hsub := Checked.combine_of_checked Checked.combines_sub ha he hd
  have hsize : r = ofRat |actual.toRat - expected.toRat| :=
    (Checked.abs_ofRat_iff.1 (hsub ▸ habs)).2
  calc words.error actual expected = d.abs := congrArg Beats.abs (Checked.sub_eq_of_checked hd)
    _ = r := Checked.abs_eq_of_checked habs
    _ = ofRat (rational.error actual.toRat expected.toRat) := hsize

/-- A fraction over a positive denominator compares with a number in lowest terms as it should. -/
theorem le_words_iff {a : Beats} (ha : 0 < a.denom) (y : ℚ) :
    words.le a (ofRat y) = true ↔ a.toRat ≤ y :=
  Beats.le_ofRat_iff ha y

/-- Only the least length can be out of order. -/
theorem isValid_words_eq (ha : 0 < actual.denom) (he : MeasureLength e)
    (h : (Checked.error actual (ofRat e)).isSome = true)
    (hordered : position.isBoundary = true → Beats.Ordered [least, ofRat e, actual]) :
    words.isValid position least actual (ofRat e) =
      rational.isValid position least.toRat actual.toRat e := by
  have hclose : words.le (words.error actual (ofRat e)) words.tolerance = true ↔
      |actual.toRat - e| ≤ 1 / 1000 := by
    have htolerance : words.tolerance = ofRat (1 / 1000) := tolerance_eq
    rw [error_words_eq ha (Beats.denom_ofRat_pos e) h, htolerance,
      le_words_iff (Beats.denom_ofRat_pos _), Beats.toRat_ofRat, Beats.toRat_ofRat]
    exact Iff.rfl
  have hmost : words.le actual (words.add (ofRat e) words.tolerance) = true ↔
      actual.toRat ≤ e + 1 / 1000 := by
    have hadd : words.add (ofRat e) words.tolerance = ofRat (e + 1 / 1000) :=
      Checked.add_eq_of_checked he.add_tolerance.1
    rw [hadd, le_words_iff ha]
  rw [Bool.eq_iff_iff, isValid_rational_iff]
  simp only [Arithmetic.isValid, Bool.or_eq_true, Bool.and_eq_true, hclose, hmost, and_assoc]
  apply or_congr_right
  apply and_congr_right
  intro hb
  have hmin := Beats.min_le_iff (hordered hb)
  rw [Beats.toRat_ofRat] at hmin
  exact and_congr_left fun _ => hmin

end

/-! ## Results -/

/-- The result for a voice is a test of the interval, where `e` beats are expected. -/
structure HandResult.IntervalTest (r : HandResult) (position : Position) (least e : ℚ) : Prop where
  error : r.error.toRat = |r.duration.toRat - e|
  middle : position = .middle → (r.valid = true ↔ r.error.toRat ≤ 1 / 1000)
  boundary : position = .first ∨ position = .last → (r.valid = true ↔
    min least (e - 1 / 1000) ≤ r.duration.toRat ∧ r.duration.toRat ≤ e + 1 / 1000)
  accepted : r.valid = true ↔ r.duration.toRat ∈ accepted position least e
  long : e + 1 / 1000 < r.duration.toRat → r.valid = false

theorem intervalTest_judgeVoice {events : List Event} {position : Position} {settings : Settings}
    {e : ℚ} (he : MeasureLength e)
    (h : (Checked.error (tally events).total (ofRat e)).isSome = true)
    (hordered : position.isBoundary = true →
      Beats.Ordered [settings.minimumPartial, ofRat e, (tally events).total]) :
    (judgeVoice events (ofRat e) position settings).IntervalTest position
      settings.minimumPartial.toRat e := by
  have ha := (over_tally events).denom_pos
  have herror : (judgeVoice events (ofRat e) position settings).error.toRat =
      |(tally events).total.toRat - e| := by
    rw [judgeVoice_eq, error_words_eq ha (Beats.denom_ofRat_pos e) h, Beats.toRat_ofRat,
      Beats.toRat_ofRat]
    rfl
  have hvalid : (judgeVoice events (ofRat e) position settings).valid = true ↔
      (tally events).total.toRat ∈ accepted position settings.minimumPartial.toRat e := by
    rw [judgeVoice_eq, isValid_words_eq ha he h hordered, isValid_rational_iff_mem]
  refine ⟨herror, ?middle, ?boundary, hvalid, ?long⟩
  case middle =>
    rintro rfl
    rw [hvalid, herror, abs_sub_le_iff_mem]
    exact Iff.rfl
  case boundary =>
    rintro (rfl | rfl)
    · exact hvalid
    · exact hvalid
  case long =>
    intro hlong
    rw [← Bool.not_eq_true, hvalid]
    exact not_mem_accepted_of_long hlong

/--
**Every result is consistent in itself, and every verdict is an interval test.** The expected length
is exact and both voices have to be valid. For a voice whose error does not overflow, with a least
length that compares as a rational number with the two lengths, the error is the distance from the
expected length and the verdict a test of one interval. In rational numbers the same rule accepts
this interval whatever the position and the least length are. It contains all that is within the
tolerance and nothing that is longer.
-/
theorem Measure.judge_interval {s : TimeSignature} (hs : s.Proper) (m : Measure)
    (position : Position) (settings : Settings) :
    let e : ℚ := s.numerator * 4 / s.denominator
    let r := m.judge s position settings
    r.expected = ofRat e ∧
      r.bothValid = (r.hands.right.valid && r.hands.left.valid) ∧
      (∀ hand, (Checked.error (r.hands.get hand).duration r.expected).isSome = true →
        (position.isBoundary = true →
          Beats.Ordered [settings.minimumPartial, r.expected, (r.hands.get hand).duration]) →
        (r.hands.get hand).IntervalTest position settings.minimumPartial.toRat e) ∧
      ∀ (position : Position) (least : ℚ),
        {x | rational.isValid position least x e = true} = accepted position least e ∧
        Set.Icc (e - 1 / 1000) (e + 1 / 1000) ⊆ accepted position least e ∧
        ∀ x, e + 1 / 1000 < x → rational.isValid position least x e = false := by
  intro e r
  have he : MeasureLength e := hs.measureLength
  have hexpected : s.expected = ofRat e := Checked.expected_eq_of_checked (Checked.expected_eq hs)
  refine ⟨hexpected, rfl, ?hands, ?rational⟩
  case hands =>
    intro hand herror hordered
    have hhand : r.hands.get hand = judgeVoice (m.voice hand) s.expected position settings := by
      cases hand <;> rfl
    have hr : r.expected = ofRat e := hexpected
    rw [hr, hhand, hexpected] at herror hordered
    rw [hhand, hexpected]
    exact intervalTest_judgeVoice he herror hordered
  case rational =>
    intro position least
    refine ⟨Set.ext fun x => isValid_rational_iff_mem, band_subset_accepted position least e, ?_⟩
    intro x hlong
    rw [← Bool.not_eq_true, isValid_rational_iff_mem]
    exact not_mem_accepted_of_long hlong

/-- An eighth note above a whole note. -/
def upbeat : Measure :=
  ⟨.unknown, none, ⟨[⟨["G4"], .piece (.name "eighth")⟩], [⟨["C3"], .piece (.name "whole")⟩]⟩⟩

/-- In a first measure the eighth note is as long as the least length, minus two over minus four. -/
theorem Measure.judge_interval_of_upbeat :
    let r := upbeat.judge .common .first ⟨.pickup, ⟨-2, -4⟩⟩
    TimeSignature.common.Proper ∧ r.expected = ⟨4, 1⟩ ∧ r.bothValid = true ∧
      (∀ hand, (Checked.error (r.hands.get hand).duration r.expected).isSome = true ∧
        Beats.Ordered [⟨-2, -4⟩, r.expected, (r.hands.get hand).duration]) ∧
      (r.hands.get .right).IntervalTest .first (1 / 2) 4 ∧
      (r.hands.get .right).duration.toRat ∈ accepted .first (1 / 2) 4 := by
  intro r
  have hs : TimeSignature.common.Proper := by constructor <;> decide
  have herror : ∀ hand, (Checked.error (r.hands.get hand).duration r.expected).isSome = true := by
    intro hand
    cases hand <;> decide +kernel
  have hordered : ∀ hand,
      Beats.Ordered [⟨-2, -4⟩, r.expected, (r.hands.get hand).duration] := by
    intro hand
    cases hand <;> unfold Beats.Ordered <;> decide +kernel
  have hvalid : (r.hands.get .right).valid = true := by decide +kernel
  have hboth : r.bothValid = true := by decide +kernel
  have hleast : toRat ⟨-2, -4⟩ = 1 / 2 := by norm_num [toRat]
  have he : (TimeSignature.common.numerator * 4 / TimeSignature.common.denominator : ℚ) = 4 := by
    norm_num [TimeSignature.common]
  obtain ⟨hexpected, -, htest, -⟩ := judge_interval hs upbeat .first ⟨.pickup, ⟨-2, -4⟩⟩
  have hright := htest .right (herror .right) fun _ => hordered .right
  rw [he, hleast] at hright
  refine ⟨hs, ?_, hboth, fun hand => ⟨herror hand, hordered hand⟩, hright, hright.accepted.1 hvalid⟩
  decide +kernel

end MeterCheck
