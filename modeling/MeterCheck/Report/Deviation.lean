import MeterCheck.Binary64.Decimal
import MeterCheck.Verdict.Measure

/-!
# Deviations

The voices of invalid measures that are noticeably too long or too short, one line for each.
-/

namespace MeterCheck

/-- A voice and the size of its difference from the expected length. -/
structure Deviation where
  id : MeasureId
  hand : Hand
  error : Beats
  deriving DecidableEq, Repr

namespace Deviation

/-- Larger differences are worth a line. -/
def threshold : Beats := ⟨1, 100⟩

def text (d : Deviation) : String :=
  let beats := String.ofList (d.error.toDouble.fixed 3)
  s!"Measure {d.id.display}: {d.hand.label} off by {beats} beats"

end Deviation

/-- The deviation of one hand, if it is above the threshold. -/
def MeasureResult.deviation? (r : MeasureResult) (hand : Hand) : Option Deviation :=
  let error := (r.hands.get hand).error
  if error.le Deviation.threshold then none else some ⟨r.id, hand, error⟩

/-- The deviations of the results that are not valid, the right hand before the left. -/
def deviations (results : List MeasureResult) : List Deviation :=
  (results.filter (! ·.bothValid)).flatMap fun r => Hand.both.filterMap r.deviation?

end MeterCheck
