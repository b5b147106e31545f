import MeterCheck.Log
import MeterCheck.Report.Basic

/-!
# Validating a score

* `carry`: the signature of each measure. A measure without one has that of the measure before
  it, and the first of them that of the score;
* `Score.run`: the report on a score and the log of the run. Signatures are resolved for all
  measures before the first one is judged.
-/

namespace MeterCheck

/-- Why a score, or a request about one, has no answer. -/
inductive ScoreError where
  | malformedSignature (e : SignatureError)
  | noMeasures
  | unreadable (detail : String)
  deriving DecidableEq, Repr

def ScoreError.message : ScoreError → String
  | malformedSignature e => s!"Malformed time signature '{e.input}': {e.fault.message}"
  | noMeasures => "No measures found in music data"
  | unreadable detail => "Invalid music data: " ++ detail

/-- A computation that keeps a log and may fail; what was logged before a failure stays. -/
abbrev Run := ExceptT ScoreError Logged

namespace Run

/-- Adds entries to the log. -/
def tell (entries : List LogEntry) : Run Unit := ExceptT.lift (Logged.tell entries)

/-- The signature that a specification stands for. -/
def resolve (spec : SignatureSpec) : Run TimeSignature :=
  ExceptT.mk (pure (spec.resolve.mapError .malformedSignature))

end Run

/-- The signatures of the measures after one with the signature `current`. -/
def carry (current : TimeSignature) : List Measure → Run (List TimeSignature)
  | [] => pure []
  | m :: rest => do
    let next ← match m.signature with
      | some spec => Run.resolve spec
      | none => pure current
    if next ≠ current then Run.tell [.signatureChange m.id next]
    return next :: (← carry next rest)

/-- Common time if the score declares nothing. -/
def resolveDefault : Option SignatureSpec → Run TimeSignature
  | some spec => Run.resolve spec
  | none => pure .common

/-- The verdicts on measures whose signatures are known. -/
def judgeAll (settings : Settings) (measures : List Measure) (signatures : List TimeSignature) :
    List MeasureResult :=
  (measures.zip signatures).mapIdx fun i (m, s) =>
    m.judge s (settings.positionOf i measures.length) settings

namespace Score

def run (s : Score) (settings : Settings) : Run Report := do
  let signature ← resolveDefault s.signature
  if s.measures.isEmpty then throw .noMeasures
  let signatures ← carry signature s.measures
  let results := judgeAll settings s.measures signatures
  Run.tell (results.flatMap MeasureResult.entries)
  let report := Report.ofResults signature results
  Run.tell (report.deviations.map .deviation)
  Run.tell [.summary report.total report.valid report.invalid]
  return report

/-- The report without the log. -/
def validate (s : Score) (settings : Settings) : Except ScoreError Report :=
  (s.run settings).run.value

end Score

end MeterCheck
