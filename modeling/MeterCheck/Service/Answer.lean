import MeterCheck.Score.Statistics
import MeterCheck.Service.Envelope
import MeterCheck.Service.Request
import MeterCheck.Shape.Check

/-!
# Answers to requests

Each function takes the text of a request and gives the text of the answer. None of them fails:
what is wrong with a request is said in an error envelope. What is said of a text that cannot be
read is worded by the reader of the request.
-/

namespace MeterCheck

variable (wording : Wording)

/-- A request that is read from a text. -/
def Run.decode {α : Type} (read : Reader α) (text : String) : Run α :=
  ExceptT.mk (pure ((MeterCheck.decode read text).mapError fun e => .unreadable (wording text e)))

/-- The answer to a request, with an entry in the log if it has failed. -/
def answer (context : String) (result : Run Json) : Logged String := do
  match ← result.run with
  | .ok payload => (Envelope.success payload).text
  | .error e => (← Envelope.failure context e.message).text

/-- Validates a score. -/
def validateScore (text : String) : Logged String :=
  answer "validate_score" do
    let request ← Run.decode wording ScoreRequest.reader text
    return (← request.run).toJson

/-- Validates a measure on its own. -/
def validateMeasure (text : String) : Logged String :=
  answer "validate_measure" do
    let request ← Run.decode wording (MeasureRequest.record.read .text) text
    return (← request.run).toJson

/-- The statistics of a score. -/
def scoreStatistics (text : String) : Logged String :=
  answer "score_statistics" do
    let score ← Run.decode wording ((Score.record .text).read .text) text
    return .object [("statistics", score.statistics.toJson)]

/-- Checks the shape of a score. -/
def checkStructure (text : String) : Logged String := do
  match MeterCheck.decode Reader.document text with
  | .ok v => return (← ShapeReport.check v.canonical).toJson.text
  | .error e => (← Envelope.failure "check_structure" (wording text e)).text

end MeterCheck
