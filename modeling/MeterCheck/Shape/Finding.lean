import MeterCheck.Score.Basic
import MeterCheck.Shape.Mark

/-!
# Findings about the shape of a score

* `Finding`: what may be wrong with the shape of a document that should hold a score;
* `Finding.pointer`: the place it is about;
* `Finding.mark`: the mark for it.
-/

namespace MeterCheck

/-- A step from a value to one of its parts. -/
inductive Step where
  | member (name : String)
  | item (index : Nat)
  deriving DecidableEq, Repr

/-- The way from the root of a document to one of its parts. -/
abbrev Pointer := List Step

def Step.text : Step → String
  | member name => "/" ++ name
  | item index => "/" ++ Nat.repr index

def Pointer.text (p : Pointer) : String := String.join (p.map Step.text)

/-- A field that every event should have. -/
inductive EventField where
  | notes
  | duration
  deriving DecidableEq, Repr

namespace EventField

def both : List EventField := [notes, duration]

def text : EventField → String
  | notes => "notes"
  | duration => "duration"

end EventField

/-- Measures and events are given by their indices. -/
inductive Finding where
  | scoreNotObject
  | missingMeasures
  | measuresNotArray
  | measureNotObject (measure : Nat)
  | missingId (measure : Nat)
  | voiceNotArray (measure : Nat) (hand : Hand)
  | eventNotObject (measure : Nat) (hand : Hand) (event : Nat)
  | missingField (measure : Nat) (hand : Hand) (event : Nat) (field : EventField)
  | missingKey
  | missingTempo
  deriving DecidableEq, Repr

namespace Finding

def measurePointer (i : Nat) : Pointer := [.member "measures", .item i]

def eventPointer (i : Nat) (hand : Hand) (j : Nat) : Pointer :=
  measurePointer i ++ [.member hand.key, .item j]

/-- A missing member is located where it should be. -/
def pointer : Finding → Pointer
  | scoreNotObject => []
  | missingMeasures => []
  | measuresNotArray => [.member "measures"]
  | measureNotObject i => measurePointer i
  | missingId i => measurePointer i ++ [.member "id"]
  | voiceNotArray i hand => measurePointer i ++ [.member hand.key]
  | eventNotObject i hand j => eventPointer i hand j
  | missingField i hand j field => eventPointer i hand j ++ [.member field.text]
  | missingKey => [.member "key"]
  | missingTempo => [.member "tempo"]

/-- Only a member that can be done without is worth no more than a warning. -/
def severity : Finding → Severity
  | missingId _ => .warning
  | missingField .. => .warning
  | missingKey => .warning
  | missingTempo => .warning
  | _ => .error

def kind : Finding → String
  | scoreNotObject => "score_not_object"
  | missingMeasures => "missing_measures"
  | measuresNotArray => "measures_not_array"
  | measureNotObject _ => "measure_not_object"
  | missingId _ => "missing_id"
  | voiceNotArray .. => "hand_not_array"
  | eventNotObject .. => "event_not_object"
  | missingField _ _ _ field => "missing_" ++ field.text
  | missingKey => "missing_key"
  | missingTempo => "missing_tempo"

def message : Finding → String
  | scoreNotObject => "Music data must be a JSON object"
  | missingMeasures => "Missing 'measures' or 'notes' field"
  | measuresNotArray => "'measures' must be an array"
  | measureNotObject i => s!"Measure {i} is not an object"
  | missingId i => s!"Measure {i} missing 'id' field"
  | voiceNotArray i hand => s!"Measure {i} {hand.key} is not an array"
  | eventNotObject i hand j => s!"Measure {i} {hand.key} event {j} is not an object"
  | missingField i hand j field =>
    s!"Measure {i} {hand.key} event {j} missing '{field.text}'"
  | missingKey => "Missing 'key' field"
  | missingTempo => "Missing 'tempo' field"

def mark (f : Finding) : Mark := ⟨f.pointer.text, f.severity, f.kind, f.message⟩

end Finding

end MeterCheck
