import MeterCheck.Proofs.Beats.Order
import MeterCheck.Proofs.Duration.Length
import MeterCheck.Proofs.TimeSignature.Resolve
import MeterCheck.Report.Deviation

/-!
# Checked verdicts

The verdict on a voice once more, stopped at the first operation that leaves the words or divides
by zero. `Checked.verdict_eq_of_checked`: a verdict that is not stopped is the one that is
given.
-/

namespace MeterCheck

/-- What the verdict on one voice depends on. -/
structure Trial where
  events : List Event
  signature : TimeSignature
  position : Position
  settings : Settings

/-- The verdict that is given. -/
def Trial.verdict (t : Trial) : HandResult :=
  judgeVoice t.events t.signature.expected t.position t.settings

namespace Checked

/-- The sum of the durations of a voice. -/
def tally (events : List Event) : Option Beats := do
  total ((← events.mapM fun e => value e.duration).map Value.beats)

/-- The length of a measure in quarter notes. -/
def expected (s : TimeSignature) : Option Beats := do
  make (← word (s.numerator * 4)) s.denominator

/-- The voice is not shorter than the least length and not too long. -/
def isPartial (least actual expected : Beats) : Option Bool := do
  let floor ← min least expected
  if ← le floor actual then le actual (← add expected tolerance) else return false

/-- The least length counts only where a boundary measure does not have the expected length. -/
def isValid (actual expected : Beats) (position : Position) (settings : Settings) :
    Option Bool := do
  if ← le (← abs (← sub actual expected)) tolerance then return true
  else if position.isBoundary then isPartial settings.minimumPartial actual expected
  else return false

/-- A report also compares the error with the size that is worth a line. -/
def verdict (t : Trial) : Option HandResult := do
  let duration ← tally t.events
  let expected ← expected t.signature
  let error ← abs (← sub duration expected)
  let valid ← isValid duration expected t.position t.settings
  let _ ← le error Deviation.threshold
  return ⟨duration, error, valid, (MeterCheck.tally t.events).unrecognized⟩

theorem total_tally (events : List Event) (t : Tally) (i : Nat) :
    ((events.zipIdx i).foldl (fun t (e, i) => t.add i e.duration.value) t).total =
      ((events.map fun e => e.duration.value).map Value.beats).foldl (· + ·) t.total := by
  induction events generalizing t i with
  | nil => rfl
  | cons e events ih =>
    rw [List.zipIdx_cons, List.foldl_cons, ih]
    rfl

theorem tally_eq_of_checked {events : List Event} {r : Beats} (h : tally events = some r) :
    (MeterCheck.tally events).total = r := by
  rw [tally, Option.bind_eq_bind, Option.bind_eq_some_iff] at h
  obtain ⟨values, hvalues, h⟩ := h
  rw [MeterCheck.tally, total_tally,
    map_of_mapM (fun _ _ hv => value_eq_of_checked hv) hvalues]
  exact foldl_add_of_checked h

theorem expected_eq_of_checked {s : TimeSignature} {r : Beats} (h : expected s = some r) :
    s.expected = r := by
  simp only [expected, Option.bind_eq_bind, Option.bind_eq_some_iff, word_eq_some_iff] at h
  obtain ⟨n, ⟨_, hn⟩, h⟩ := h
  rw [TimeSignature.expected, hn, make_eq_of_checked h]

theorem expected_denom_ne_zero {s : TimeSignature} {r : Beats} (h : expected s = some r) :
    r.denom ≠ 0 := by
  rw [expected, Option.bind_eq_bind, Option.bind_eq_some_iff] at h
  obtain ⟨_, _, h⟩ := h
  exact make_denom_ne_zero h

theorem foldlM_add_denom_ne_zero {terms : List Beats} {a r : Beats} (ha : a.denom ≠ 0)
    (h : terms.foldlM add a = some r) : r.denom ≠ 0 := by
  induction terms generalizing a with
  | nil =>
    cases h
    exact ha
  | cons b terms ih =>
    obtain ⟨s, hs, h⟩ := Option.bind_eq_some_iff.1 h
    exact ih (combine_denom_ne_zero hs) h

theorem tally_denom_ne_zero {events : List Event} {r : Beats} (h : tally events = some r) :
    r.denom ≠ 0 := by
  rw [tally, Option.bind_eq_bind, Option.bind_eq_some_iff] at h
  obtain ⟨_, _, h⟩ := h
  exact foldlM_add_denom_ne_zero (by decide) h

theorem min_eq_of_checked {a b r : Beats} (ha : a.denom ≠ 0) (hb : b.denom ≠ 0)
    (h : min a b = some r) : a.min b = r ∧ r.denom ≠ 0 := by
  rw [min, Option.bind_eq_bind, Option.bind_eq_some_iff] at h
  obtain ⟨t, ht, h⟩ := h
  rw [Beats.min, le_eq_of_checked ha hb ht]
  cases t with
  | true =>
    cases h
    exact ⟨rfl, ha⟩
  | false =>
    cases h
    exact ⟨rfl, hb⟩

theorem isPartial_eq_of_checked {least actual expected : Beats} {v : Bool}
    (hl : least.denom ≠ 0) (ha : actual.denom ≠ 0) (he : expected.denom ≠ 0)
    (h : isPartial least actual expected = some v) :
    ((least.min expected).le actual && actual.le (expected + tolerance)) = v := by
  simp only [isPartial, Option.bind_eq_bind, Option.bind_eq_some_iff] at h
  obtain ⟨floor, hfloor, enough, henough, h⟩ := h
  obtain ⟨hmin, hfloor0⟩ := min_eq_of_checked hl he hfloor
  rw [hmin, le_eq_of_checked hfloor0 ha henough]
  cases enough with
  | false => exact Option.some.inj h
  | true =>
    simp only [↓reduceIte, Option.bind_eq_some_iff] at h
    obtain ⟨most, hmost, h⟩ := h
    rw [add_eq_of_checked hmost, le_eq_of_checked ha (combine_denom_ne_zero hmost) h]
    rfl

theorem isValid_eq_of_checked {actual expected : Beats} {position : Position}
    {settings : Settings} {v : Bool} (ha : actual.denom ≠ 0) (he : expected.denom ≠ 0)
    (hm : settings.minimumPartial.denom ≠ 0)
    (h : isValid actual expected position settings = some v) :
    MeterCheck.isValid actual expected position settings = v := by
  simp only [isValid, Option.bind_eq_bind, Option.bind_eq_some_iff] at h
  obtain ⟨difference, hdifference, size, hsize, close, hclose, h⟩ := h
  have hsize0 : size.denom ≠ 0 := abs_denom hsize ▸ combine_denom_ne_zero hdifference
  rw [MeterCheck.isValid, sub_eq_of_checked hdifference, abs_eq_of_checked hsize,
    le_eq_of_checked hsize0 (by decide) hclose]
  cases close with
  | true => exact Option.some.inj h
  | false =>
    simp only [Bool.false_eq_true, ↓reduceIte] at h
    cases hb : position.isBoundary with
    | false =>
      rw [if_neg (by rw [hb]; decide)] at h
      exact Option.some.inj h
    | true =>
      rw [if_pos hb] at h
      exact isPartial_eq_of_checked hm ha he h

theorem verdict_eq_of_checked {t : Trial} {r : HandResult}
    (hm : t.settings.minimumPartial.denom ≠ 0) (h : verdict t = some r) : t.verdict = r := by
  simp only [verdict, Option.bind_eq_bind, Option.bind_eq_some_iff] at h
  obtain ⟨duration, hduration, expected, hexpected, difference, hdifference, error, herror,
    valid, hvalid, _, _, h⟩ := h
  have hisValid := isValid_eq_of_checked (tally_denom_ne_zero hduration)
    (expected_denom_ne_zero hexpected) hm hvalid
  rw [Trial.verdict, judgeVoice, tally_eq_of_checked hduration,
    expected_eq_of_checked hexpected, hisValid, sub_eq_of_checked hdifference,
    abs_eq_of_checked herror]
  exact Option.some.inj h

end Checked

end MeterCheck
