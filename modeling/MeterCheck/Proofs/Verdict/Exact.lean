import MeterCheck.Proofs.Verdict.Range

/-!
# When a verdict is exact

* `Trial.Acceptable`: the rule for a valid voice, in rational numbers;
* `Trial.Fits`: the numbers for which no operation is stopped;
* `Trial.Misjudged`: the verdicts that a least length with a negative denominator turns around;
* `Trial.verdict_exact_iff`: a verdict is computed without a stop and agrees with the rule if and
  only if the numbers fit and it is not turned around.
-/

namespace MeterCheck

open Beats (ofRat)
open Checked (Stops Clashes AtMost)

/-- Two words, the second of which is not zero. -/
structure Beats.IsFraction (a : Beats) : Prop where
  numer : IsWord a.numer
  denom : IsWord a.denom
  denom_ne_zero : a.denom ≠ 0

namespace Trial

variable (t : Trial)

def actual : ℚ := (t.events.map fun e => e.duration.length).sum

def expected : ℚ := t.signature.numerator * 4 / t.signature.denominator

def least : Beats := t.settings.minimumPartial

/-- A boundary measure has another length than expected, so that the least length counts. -/
def UsesLeast : Prop := t.position.isBoundary = true ∧ 1 / 1000 < |t.actual - t.expected|

def Acceptable : Prop :=
  |t.actual - t.expected| ≤ 1 / 1000 ∨
    t.position.isBoundary = true ∧ min t.least.toRat t.expected ≤ t.actual ∧
      t.actual ≤ t.expected + 1 / 1000

/-- The rule as it is decided, with the least length found to be at most the other numbers. -/
def Found : Prop :=
  |t.actual - t.expected| ≤ 1 / 1000 ∨
    t.position.isBoundary = true ∧ AtMost t.least t.expected ∧ AtMost t.least t.actual ∧
      t.actual ≤ t.expected + 1 / 1000

/-- The numbers of a verdict are those of rational arithmetic. -/
structure Exact (r : HandResult) : Prop where
  duration : r.duration = ofRat t.actual
  error : r.error = ofRat |t.actual - t.expected|
  valid : r.valid = true ↔ t.Acceptable

structure Fits : Prop where
  durations : ∀ e ∈ t.events, e.duration.Fits
  total : SumsFit 0 (t.events.map fun e => e.duration.length)
  difference : t.actual * t.actual.den.lcm t.expected.den < 2 ^ 63
  least : t.UsesLeast → ¬ Stops t.least t.expected ∧ ¬ Stops t.least t.actual

/-- A least length that counts clashes with a length, and the voice is not too long. -/
def Misjudged : Prop :=
  t.UsesLeast ∧ t.actual ≤ t.expected + 1 / 1000 ∧
    (Clashes t.least t.expected ∨ Clashes t.least t.actual)

/-- What reading a request ensures. -/
structure WellFormed : Prop where
  durations : ∀ e ∈ t.events, e.duration.WordSized
  signature : t.signature.Proper
  least : t.least.IsFraction

end Trial

theorem some_eq_some_iff_eq_true {b v : Bool} {P : Prop} (h : b = true ↔ P) :
    some b = some v ↔ (v = true ↔ P) := by
  rw [Option.some_inj, ← h]
  exact ⟨fun hb => hb ▸ Iff.rfl, fun hb => (Bool.eq_iff_iff.2 hb).symm⟩

namespace Checked

variable {m : Beats} {x e : ℚ} {v : Bool}

theorem isWord_num_den (hx : OnGrid x) (hnum : x.num < 2 ^ 63) :
    IsWord x.num ∧ IsWord (x.den : Int) := by
  have hden := hx.den_le
  refine ⟨isWord_of_nonneg (Rat.num_nonneg.2 hx.nonneg) hnum, ?_⟩
  constructor <;> omega

theorem le_expected_iff (hm : m.IsFraction) (he : MeasureLength e) :
    le m (ofRat e) = some v ↔ ¬ Stops m e ∧ (v = true ↔ AtMost m e) :=
  le_eq_some_iff hm.numer hm.denom hm.denom_ne_zero he.pos.le he.isWord_num he.isWord_den

theorem le_actual_iff (hm : m.IsFraction) (hx : OnGrid x) (hnum : x.num < 2 ^ 63) :
    le m (ofRat x) = some v ↔ ¬ Stops m x ∧ (v = true ↔ AtMost m x) := by
  obtain ⟨hxn, hxd⟩ := isWord_num_den hx hnum
  exact le_eq_some_iff hm.numer hm.denom hm.denom_ne_zero hx.nonneg hxn hxd

/-- The least length counts, and is compared with the voice. -/
theorem isPartial_of_atMost (hm : m.IsFraction) (hx : OnGrid x) (hnum : x.num < 2 ^ 63)
    (he : MeasureLength e) (hse : ¬ Stops m e) (hme : AtMost m e) :
    isPartial m (ofRat x) (ofRat e) = some v ↔
      ¬ Stops m x ∧ (v = true ↔ AtMost m x ∧ x ≤ e + 1 / 1000) := by
  obtain ⟨hxn, hxd⟩ := isWord_num_den hx hnum
  obtain ⟨hadd, hmostn, hmostd⟩ := he.add_tolerance
  have hmin : min m (ofRat e) = some m := by
    rw [min, (le_expected_iff hm he).2 ⟨hse, iff_of_true rfl hme⟩]
    rfl
  rw [isPartial, hmin, Option.bind_eq_bind, Option.bind_some]
  by_cases hsx : Stops m x
  · refine iff_of_false ?_ fun h => h.1 hsx
    intro h
    obtain ⟨_, hle, _⟩ := Option.bind_eq_some_iff.1 h
    exact ((le_actual_iff hm hx hnum).1 hle).1 hsx
  rw [and_iff_right hsx]
  by_cases hmx : AtMost m x
  · rw [(le_actual_iff hm hx hnum).2 ⟨hsx, iff_of_true rfl hmx⟩, Option.bind_eq_bind,
      Option.bind_some, if_pos rfl, hadd, Option.bind_some, le_ofRat hxn hxd hmostn hmostd]
    apply some_eq_some_iff_eq_true
    rw [decide_eq_true_iff, and_iff_right hmx]
  · rw [(le_actual_iff hm hx hnum).2 ⟨hsx, iff_of_false Bool.false_ne_true hmx⟩,
      Option.bind_eq_bind, Option.bind_some, if_neg Bool.false_ne_true]
    exact some_eq_some_iff_eq_true (iff_of_false Bool.false_ne_true fun h => hmx h.1)

/-- The expected length counts, from which the voice is too far away. -/
theorem isPartial_of_not_atMost (hm : m.IsFraction) (hx : OnGrid x) (hnum : x.num < 2 ^ 63)
    (he : MeasureLength e) (hfar : 1 / 1000 < |x - e|) (hse : ¬ Stops m e)
    (hme : ¬ AtMost m e) : isPartial m (ofRat x) (ofRat e) = some false := by
  obtain ⟨hxn, hxd⟩ := isWord_num_den hx hnum
  obtain ⟨hadd, hmostn, hmostd⟩ := he.add_tolerance
  have hmin : min m (ofRat e) = some (ofRat e) := by
    rw [min, (le_expected_iff hm he).2 ⟨hse, iff_of_false Bool.false_ne_true hme⟩]
    rfl
  rw [isPartial, hmin, Option.bind_eq_bind, Option.bind_some,
    le_ofRat he.isWord_num he.isWord_den hxn hxd, Option.bind_eq_bind, Option.bind_some]
  by_cases hex : e ≤ x
  · -- a voice that is longer, and not by the tolerance, is too long
    have hlong : ¬ x ≤ e + 1 / 1000 := by
      rw [abs_of_nonneg (sub_nonneg.2 hex)] at hfar
      linarith
    rw [if_pos (decide_eq_true hex), hadd, Option.bind_some, le_ofRat hxn hxd hmostn hmostd,
      decide_eq_false hlong]
  · rw [if_neg (by rwa [decide_eq_true_iff])]
    rfl

theorem isPartial_eq_some_iff (hm : m.IsFraction) (hx : OnGrid x) (hnum : x.num < 2 ^ 63)
    (he : MeasureLength e) (hfar : 1 / 1000 < |x - e|) :
    isPartial m (ofRat x) (ofRat e) = some v ↔ (¬ Stops m e ∧ ¬ Stops m x) ∧
      (v = true ↔ AtMost m e ∧ AtMost m x ∧ x ≤ e + 1 / 1000) := by
  by_cases hse : Stops m e
  · refine iff_of_false ?_ fun h => h.1.1 hse
    intro h
    simp only [isPartial, min, Option.bind_eq_bind, Option.bind_eq_some_iff] at h
    obtain ⟨_, ⟨_, hle, _⟩, _⟩ := h
    exact ((le_expected_iff hm he).1 hle).1 hse
  by_cases hme : AtMost m e
  · rw [isPartial_of_atMost hm hx hnum he hse hme, and_iff_right hse, and_iff_right hme]
  · have hsx : ¬ Stops m x := fun hsx => hse (stops_of_not_atMost he.pos hsx hme)
    rw [isPartial_of_not_atMost hm hx hnum he hfar hse hme, and_iff_right ⟨hse, hsx⟩]
    exact some_eq_some_iff_eq_true (iff_of_false Bool.false_ne_true fun h => hme h.1)

theorem isValid_eq_some_iff (position : Position) {settings : Settings}
    (hm : settings.minimumPartial.IsFraction) (hx : OnGrid x) (hnum : x.num < 2 ^ 63)
    (he : MeasureLength e) :
    isValid (ofRat x) (ofRat e) position settings = some v ↔
      x * x.den.lcm e.den < 2 ^ 63 ∧
      (position.isBoundary = true ∧ 1 / 1000 < |x - e| →
        ¬ Stops settings.minimumPartial e ∧ ¬ Stops settings.minimumPartial x) ∧
      (v = true ↔ |x - e| ≤ 1 / 1000 ∨ position.isBoundary = true ∧
        AtMost settings.minimumPartial e ∧ AtMost settings.minimumPartial x ∧
        x ≤ e + 1 / 1000) := by
  by_cases hfit : x * x.den.lcm e.den < 2 ^ 63
  · have hsub := (sub_eq_some_iff hx hnum he).2 ⟨hfit, rfl⟩
    rw [isValid, hsub, Option.bind_eq_bind, Option.bind_some, abs_sub_eq hx he hfit,
      Option.bind_eq_bind, Option.bind_some, le_tolerance_eq hx he hfit, Option.bind_some,
      and_iff_right hfit]
    by_cases hclose : |x - e| ≤ 1 / 1000
    · rw [if_pos (decide_eq_true hclose), and_iff_right fun h => absurd hclose (not_le.2 h.2)]
      exact some_eq_some_iff_eq_true (iff_of_true rfl (Or.inl hclose))
    rw [if_neg (by rwa [decide_eq_true_iff]), or_iff_right hclose]
    by_cases hb : position.isBoundary = true
    · rw [if_pos hb, isPartial_eq_some_iff hm hx hnum he (not_le.1 hclose),
        forall_prop_of_true ⟨hb, not_le.1 hclose⟩]
      simp only [hb, true_and]
    · rw [if_neg hb, and_iff_right fun h => absurd h.1 hb]
      exact some_eq_some_iff_eq_true (iff_of_false Bool.false_ne_true fun h => hb h.1)
  · refine iff_of_false ?_ fun h => hfit h.1
    intro h
    rw [isValid, Option.bind_eq_bind, Option.bind_eq_some_iff] at h
    obtain ⟨_, hsub, _⟩ := h
    exact hfit ((sub_eq_some_iff hx hnum he).1 hsub).1

end Checked

namespace Trial

variable {t : Trial}

theorem actual_onGrid : OnGrid t.actual := by
  apply OnGrid.sum
  intro x hx
  obtain ⟨e, _, rfl⟩ := List.mem_map.1 hx
  exact e.duration.length_onGrid

/-- A checked verdict is not stopped if the numbers fit, and is exact up to the least length. -/
theorem verdict_eq_some_iff {r : HandResult} (h : t.WellFormed) :
    Checked.verdict t = some r ↔ t.Fits ∧ r.duration = ofRat t.actual ∧
      r.error = ofRat |t.actual - t.expected| ∧ (r.valid = true ↔ t.Found) ∧
      r.unrecognized = (tally t.events).unrecognized := by
  have hx : OnGrid t.actual := actual_onGrid
  have he : MeasureLength t.expected := h.signature.measureLength
  have htotal := fun r => Checked.tally_eq_some_iff (r := r) h.durations
  have hexpected : Checked.expected t.signature = some (ofRat t.expected) :=
    Checked.expected_eq h.signature
  have hnum (hsums : SumsFit 0 (t.events.map fun e => e.duration.length)) :
      t.actual.num < 2 ^ 63 := by
    have hlt := hsums.num_lt .zero ?_ (by decide)
    · rw [zero_add] at hlt
      exact hlt
    · intro x hx
      obtain ⟨e, _, rfl⟩ := List.mem_map.1 hx
      exact e.duration.length_onGrid
  have hisValid (hsums : SumsFit 0 (t.events.map fun e => e.duration.length)) (v : Bool) :=
    Checked.isValid_eq_some_iff (v := v) t.position h.least hx (hnum hsums) he
  simp only [Checked.verdict, Option.bind_eq_bind, Option.bind_eq_some_iff, htotal, hexpected,
    Option.some_inj, exists_eq_left']
  constructor
  · rintro ⟨_, ⟨hdurations, hsums, rfl⟩, _, hsub, _, herror, v, hvalid, _, _, hr⟩
    obtain ⟨hfit, rfl⟩ := (Checked.sub_eq_some_iff hx (hnum hsums) he).1 hsub
    rw [Checked.abs_sub_eq hx he hfit] at herror
    obtain ⟨_, hleast, hv⟩ := (hisValid hsums v).1 hvalid
    cases herror
    cases hr
    exact ⟨⟨hdurations, hsums, hfit, hleast⟩, rfl, rfl, hv, rfl⟩
  · rintro ⟨⟨hdurations, hsums, hfit, hleast⟩, hduration, herror, hv, hunrecognized⟩
    refine ⟨_, ⟨hdurations, hsums, rfl⟩, _,
      (Checked.sub_eq_some_iff hx (hnum hsums) he).2 ⟨hfit, rfl⟩, _,
      Checked.abs_sub_eq hx he hfit, r.valid, (hisValid hsums _).2 ⟨hfit, hleast, hv⟩, _,
      Checked.le_threshold_eq hx he hfit, ?_⟩
    cases r
    cases hduration
    cases herror
    cases hunrecognized
    rfl

/-- Only a clash makes the decision differ from the rule. -/
theorem found_iff_acceptable_iff (h : t.WellFormed) :
    (t.Found ↔ t.Acceptable) ↔ ¬ t.Misjudged := by
  have hx : 0 ≤ t.actual := actual_onGrid.nonneg
  have he : 0 < t.expected := h.signature.measureLength.pos
  unfold Found Acceptable Misjudged UsesLeast
  by_cases hclose : |t.actual - t.expected| ≤ 1 / 1000
  · exact iff_of_true (iff_of_true (Or.inl hclose) (Or.inl hclose))
      fun hm => absurd hclose (not_le.2 hm.1.2)
  rw [or_iff_right hclose, or_iff_right hclose]
  by_cases hb : t.position.isBoundary = true
  swap
  · exact iff_of_true (iff_of_false (fun h => hb h.1) fun h => hb h.1) fun hm => hb hm.1.1
  simp only [hb, not_le.1 hclose, true_and]
  by_cases htop : t.actual ≤ t.expected + 1 / 1000
  swap
  · exact iff_of_true (iff_of_false (fun h => htop h.2.2) fun h => htop h.2)
      fun hm => htop hm.1
  simp only [htop, and_true, true_and]
  have hshort : t.actual < t.expected := by
    by_contra hge
    rw [abs_of_nonneg (by linarith)] at hclose
    exact hclose (by linarith)
  have hmin : min t.least.toRat t.expected ≤ t.actual ↔ t.least.toRat ≤ t.actual := by
    rw [min_le_iff, or_iff_left (not_le.2 hshort)]
  rw [hmin]
  by_cases hclash : Clashes t.least t.expected ∨ Clashes t.least t.actual
  · have hneg : t.least.toRat < 0 := by
      rcases hclash with hclash | hclash
      · exact Checked.toRat_neg_of_clashes hclash
      · exact Checked.toRat_neg_of_clashes hclash
    have hnot : ¬ (AtMost t.least t.expected ∧ AtMost t.least t.actual) :=
      fun h => hclash.elim h.1.1 h.2.1
    exact iff_of_false (fun h => hnot (h.2 (hneg.le.trans hx))) fun h => h hclash
  · obtain ⟨hce, hca⟩ := not_or.1 hclash
    refine iff_of_true ?_ hclash
    exact ⟨fun h => h.2.2, fun h => ⟨⟨hce, h.trans hshort.le⟩, hca, h⟩⟩

/--
**When a verdict is exact.** No operation leaves the words or divides by zero, and the verdict is
that of rational arithmetic, if and only if the numbers fit and the least length does not clash.
-/
theorem verdict_exact_iff (h : t.WellFormed) :
    Checked.verdict t = some t.verdict ∧ t.Exact t.verdict ↔ t.Fits ∧ ¬ t.Misjudged := by
  constructor
  · rintro ⟨hchecked, hexact⟩
    obtain ⟨hfits, _, _, hfound, _⟩ := (verdict_eq_some_iff h).1 hchecked
    exact ⟨hfits, (found_iff_acceptable_iff h).1 (hfound.symm.trans hexact.valid)⟩
  · rintro ⟨hfits, hjudged⟩
    obtain ⟨r, hr⟩ : ∃ r, Checked.verdict t = some r := by
      classical
      exact ⟨⟨_, _, decide t.Found, _⟩, (verdict_eq_some_iff h).2
        ⟨hfits, rfl, rfl, decide_eq_true_iff, rfl⟩⟩
    obtain rfl := Checked.verdict_eq_of_checked h.least.denom_ne_zero hr
    obtain ⟨_, hduration, herror, hfound, _⟩ := (verdict_eq_some_iff h).1 hr
    exact ⟨hr, hduration, herror, hfound.trans ((found_iff_acceptable_iff h).2 hjudged)⟩

/-- Four billion whole notes do not fit beside a measure of as small a part of one. -/
example : ¬ (Trial.mk [⟨[], .piece (.product 4294967295 "whole")⟩] ⟨1, 4294967295⟩ .middle
    .default).Fits := by
  intro h
  have hlength : lengthOf "whole" = 4 := by decide +kernel
  have hden : (4 / 4294967295 : ℚ).den = 4294967295 := by decide +kernel
  have hfit := h.difference
  norm_num [actual, expected, Duration.length, Piece.length, hlength, hden] at hfit

end Trial

end MeterCheck
