import MeterCheck.Report.Run
import MeterCheck.Score.Wire

/-!
# Requests

* `MeasureRequest`: a measure to be judged on its own;
* `ScoreRequest`: a score and, beside its fields, the settings for the report on it.
-/

namespace MeterCheck

structure MeasureRequest where
  measure : Measure
  /-- For a measure that has no signature of its own. -/
  signature : Option SignatureSpec
  position : Position
  settings : Settings
  deriving Repr

namespace MeasureRequest

def record : Record MeasureRequest where
  title := "MeasureRequest"
  fields := MeasureRequest.mk
    <$> .required "measure" ((Measure.record .text).read .text)
    <*> .optional "time_signature" SignatureSpec.reader
    <*> .withDefault "position" Position.reader .middle
    <*> .withDefault "settings" (Settings.record.read .text) .default

/-- The signature of the measure, else that of the request, else common time. -/
def run (r : MeasureRequest) : Run MeasureAnswer := do
  let signature ← resolveDefault (r.measure.signature.or r.signature)
  let result := r.measure.judge signature r.position r.settings
  Run.tell result.entries
  return .ofResult result

end MeasureRequest

structure ScoreRequest where
  score : Score
  settings : Settings
  deriving Repr

namespace ScoreRequest

def settingsField : Fields Settings :=
  .withDefault "settings" (Settings.record.read .text) .default

/--
Reads the settings first. The other members are set aside meanwhile, so each of them has to be
sound, also one that no field is read from.
-/
def reader : Reader ScoreRequest
  | .object members => do
    if members.all fun (name, v) => name == "settings" || v.sound then
      let settings ← (settingsField.read members).mapError Prod.snd
      let score ← ((Score.record .buffer).fields.read members).mapError Prod.snd
      return ⟨score, settings⟩
    else .error .malformed
  | v => mismatch "struct ScoreRequest" v

def run (r : ScoreRequest) : Run Report := r.score.run r.settings

end ScoreRequest

end MeterCheck
