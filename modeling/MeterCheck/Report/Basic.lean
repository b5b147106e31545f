import MeterCheck.Report.Deviation
import MeterCheck.Verdict.Wire

/-!
# Reports

* `Report.ofResults`: the results of all measures with their counts;
* `mean`: the average of doubles, summed from left to right;
* `Report.deviations`: the lines about voices that are noticeably off.
-/

namespace MeterCheck

structure Report where
  /-- The signature of the score, not that of any measure. -/
  signature : TimeSignature
  total : Nat
  valid : Nat
  invalid : Nat
  allValid : Bool
  results : List MeasureResult
  validVoices : Hands Nat
  meanErrors : Hands Binary64
  deriving DecidableEq, Repr

/-- The sum from left to right divided by the number of terms; zero if there are none. -/
def mean (xs : List Binary64) : Binary64 :=
  if xs.isEmpty then .zero false
  else (xs.foldl Binary64.add (.zero false)).div (.ofNat xs.length)

namespace Report

def ofResults (signature : TimeSignature) (results : List MeasureResult) : Report :=
  let total := results.length
  let valid := results.countP fun r => r.bothValid
  let invalid := total - valid
  { signature
    total
    valid
    invalid
    allValid := invalid == 0
    results
    validVoices := .ofFn fun hand => results.countP fun r => (r.hands.get hand).valid
    meanErrors := .ofFn fun hand => mean (results.map fun r => (r.hands.get hand).error.toDouble) }

def validResults (r : Report) : List MeasureResult := r.results.filter (·.bothValid)

def invalidResults (r : Report) : List MeasureResult := r.results.filter (! ·.bothValid)

def deviations (r : Report) : List Deviation := MeterCheck.deviations r.results

/-- A line for each voice of an invalid measure that is noticeably off. -/
def describeInvalid (r : Report) : List String := r.deviations.map Deviation.text

def toJson (r : Report) : Json :=
  .object
    [("time_signature", .string r.signature.text),
     ("total_measures", .ofNat r.total),
     ("valid_measures", .ofNat r.valid),
     ("invalid_measures", .ofNat r.invalid),
     ("all_valid", .bool r.allValid),
     ("measure_results", .array (r.results.map MeasureResult.toJson)),
     ("summary", .object
       [("right_hand_valid_count", .ofNat r.validVoices.right),
        ("left_hand_valid_count", .ofNat r.validVoices.left),
        ("average_right_hand_error", .double r.meanErrors.right),
        ("average_left_hand_error", .double r.meanErrors.left)])]

end Report

end MeterCheck
