import MeterCheck.Score.Basic
import MeterCheck.Verdict.Settings

/-!
# Verdict on a voice

* `tally`: the sum of a voice's durations and the events whose duration is not known. The notes
  of a chord share one duration, which counts once;
* `isValid`: whether such a sum is acceptable for a measure.
-/

namespace MeterCheck

/-- The sum of a voice's durations and the indices of the events not recognized. -/
structure Tally where
  total : Beats
  unrecognized : List Nat
  deriving DecidableEq, Repr

namespace Tally

def empty : Tally := ⟨Beats.zero, []⟩

/-- The tally with one more event. -/
def add (t : Tally) (index : Nat) (v : Value) : Tally :=
  { total := t.total + v.beats
    unrecognized := if v.recognized then t.unrecognized else t.unrecognized ++ [index] }

end Tally

def tally (events : List Event) : Tally :=
  events.zipIdx.foldl (fun t (e, i) => t.add i e.duration.value) .empty

/-- The largest difference from the expected length that is accepted. -/
def tolerance : Beats := ⟨1, 1000⟩

/--
A voice is valid if it has the expected length, up to the tolerance. In a boundary measure it may
also be shorter, down to the smaller one of the expected length and the least partial length.
-/
def isValid (actual expected : Beats) (position : Position) (settings : Settings) : Bool :=
  (actual - expected).abs.le tolerance
    || (position.isBoundary
      && (settings.minimumPartial.min expected).le actual
      && actual.le (expected + tolerance))

end MeterCheck
