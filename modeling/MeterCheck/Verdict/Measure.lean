import MeterCheck.Verdict.Voice

/-!
# Verdict on a measure

* `Measure.judge`: both voices of a measure against its time signature;
* `MeasureResult`: the outcome;
* `MeasureAnswer`: the outcome for a measure that is not part of a score.
-/

namespace MeterCheck

/-- The outcome for one voice. -/
structure HandResult where
  duration : Beats
  /-- The size of the difference from the expected length. -/
  error : Beats
  valid : Bool
  unrecognized : List Nat
  deriving DecidableEq, Repr

structure MeasureResult where
  id : MeasureId
  signature : TimeSignature
  expected : Beats
  hands : Hands HandResult
  bothValid : Bool
  position : Position
  deriving DecidableEq, Repr

/-- The outcome for a voice with the given events. -/
def judgeVoice (events : List Event) (expected : Beats) (position : Position)
    (settings : Settings) : HandResult :=
  let t := tally events
  { duration := t.total
    error := (t.total - expected).abs
    valid := isValid t.total expected position settings
    unrecognized := t.unrecognized }

namespace Measure

def judge (m : Measure) (signature : TimeSignature) (position : Position)
    (settings : Settings) : MeasureResult :=
  let expected := signature.expected
  let hands := m.voices.map fun events => judgeVoice events expected position settings
  { id := m.id
    signature
    expected
    hands
    bothValid := hands.right.valid && hands.left.valid
    position }

/-- No measure may be partial. -/
def judgeStrictly (m : Measure) (signature : TimeSignature) : MeasureResult :=
  m.judge signature .middle .default

end Measure

/-- Some event in either voice was not recognized. -/
def MeasureResult.hasUnrecognized (r : MeasureResult) : Bool :=
  !r.hands.right.unrecognized.isEmpty || !r.hands.left.unrecognized.isEmpty

/-- The outcome for a measure on its own. -/
structure MeasureAnswer where
  valid : Bool
  id : MeasureId
  signature : TimeSignature
  expected : Beats
  hands : Hands HandResult
  deriving DecidableEq, Repr

def MeasureAnswer.ofResult (r : MeasureResult) : MeasureAnswer :=
  ⟨r.bothValid, r.id, r.signature, r.expected, r.hands⟩

end MeterCheck
