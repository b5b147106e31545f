import MeterCheck.Log
import MeterCheck.Shape.Finding

/-!
# Checking the shape of a score

`Json.findings` lists what is wrong with a document before it is read as a score, so that each
place is reported rather than only the first one; `ShapeReport` is the summary.
-/

namespace MeterCheck

namespace Json

def lacks (v : Json) (name : String) : Bool := (v.member? name).isNone

/-- The finding if the condition holds. -/
def findingIf (condition : Bool) (f : Finding) : List Finding := if condition then [f] else []

def eventFindings (i : Nat) (hand : Hand) (j : Nat) (event : Json) : List Finding :=
  if event.isObject then
    EventField.both.flatMap fun field =>
      findingIf (event.lacks field.text) (.missingField i hand j field)
  else [.eventNotObject i hand j]

def voiceFindings (i : Nat) (measure : Json) (hand : Hand) : List Finding :=
  match measure.member? hand.key with
  | none => []
  | some (.array events) => (events.mapIdx (eventFindings i hand)).flatten
  | some _ => [.voiceNotArray i hand]

def measureFindings (i : Nat) (measure : Json) : List Finding :=
  if measure.isObject then
    findingIf (measure.lacks "id") (.missingId i) ++ Hand.both.flatMap (voiceFindings i measure)
  else [.measureNotObject i]

def measuresFindings (score : Json) : List Finding :=
  match score.member? "measures" with
  | none => []
  | some (.array measures) => (measures.mapIdx measureFindings).flatten
  | some _ => [.measuresNotArray]

/-- What is wrong with the shape of a score, in the order of the marks. -/
def findings (score : Json) : List Finding :=
  if score.isObject then
    findingIf (score.lacks "measures" && score.lacks "notes") .missingMeasures
      ++ measuresFindings score
      ++ findingIf (score.lacks "key") .missingKey
      ++ findingIf (score.lacks "tempo") .missingTempo
  else [.scoreNotObject]

end Json

structure ShapeReport where
  valid : Bool
  errors : List String
  warnings : List String
  measureCount : Nat
  hasKey : Bool
  hasTempo : Bool
  marks : List Mark
  deriving DecidableEq, Repr

namespace ShapeReport

/-- The marks with what they say about the document as a whole. -/
def build (d : Diagnostics) (score : Json) : ShapeReport :=
  { valid := !d.hasErrors
    errors := d.messages .error
    warnings := d.messages .warning
    measureCount := (((score.member? "measures").bind Json.items?).getD []).length
    hasKey := !score.lacks "key"
    hasTempo := !score.lacks "tempo"
    marks := d.marks }

def ofValue (score : Json) : ShapeReport := build ⟨score.findings.map Finding.mark⟩ score

/-- The report; errors within a score are also logged. -/
def check (score : Json) : Logged ShapeReport := do
  let r := ofValue score
  if score.isObject && !r.valid then Logged.tell [.shapeErrors r.errors.length]
  return r

def toJson (r : ShapeReport) : Json :=
  .object
    [("status", .string (if r.valid then "success" else "error")),
     ("valid", .bool r.valid),
     ("errors", .array (r.errors.map .string)),
     ("warnings", .array (r.warnings.map .string)),
     ("measure_count", .ofNat r.measureCount),
     ("has_key", .bool r.hasKey),
     ("has_tempo", .bool r.hasTempo),
     ("marks", .array (r.marks.map Mark.toJson))]

end ShapeReport

end MeterCheck
