import MeterCheck.Score.Basic
import MeterCheck.Duration.Wire
import MeterCheck.TimeSignature.Wire

/-!
# Scores in documents

The records of events, measures and scores. Every field may be missing; a missing duration is a
quarter note, while a duration that is null is blank.
-/

namespace MeterCheck

namespace MeasureId

def reader : Reader MeasureId
  | .int n => if Text.isSigned64 n then .ok (.number n) else .error (.noVariant "MeasureId")
  | .string s => .ok (.text s)
  | _ => .error (.noVariant "MeasureId")

def toJson : MeasureId → Json
  | number n => .int n
  | text s => .string s

end MeasureId

namespace Event

/-- The duration of an event that gives none. -/
def defaultDuration : Duration := .classify "quarter"

def record : Record Event where
  title := "Event"
  fields := Event.mk
    <$> .orDefault "notes" (Reader.list Reader.text) []
    <*> .withDefault "duration" Duration.reader defaultDuration

def toJson (e : Event) : Json :=
  .object [("notes", .array (e.notes.map .string)), ("duration", e.duration.toJson)]

end Event

namespace Measure

def record (source : Source) : Record Measure where
  title := "Measure"
  fields := (fun id signature right left => ⟨id, signature, ⟨right, left⟩⟩)
    <$> .orDefault "id" MeasureId.reader .unknown
    <*> .optional "time_signature" SignatureSpec.reader
    <*> .orDefault "right_hand" (Reader.list (Event.record.read source)) []
    <*> .orDefault "left_hand" (Reader.list (Event.record.read source)) []

def toJson (m : Measure) : Json :=
  .ofMembers
    [("id", some m.id.toJson),
     ("time_signature", m.signature.map SignatureSpec.toJson),
     ("right_hand", some (.array (m.voices.right.map Event.toJson))),
     ("left_hand", some (.array (m.voices.left.map Event.toJson)))]

end Measure

namespace Score

/-- Any value, kept in canonical form. -/
def tempoReader : Reader Json := fun v => (Reader.document v).map Json.canonical

def record (source : Source) : Record Score where
  title := "Score"
  fields := Score.mk
    <$> .optional "piece_name" Reader.text
    <*> .optional "composer" Reader.text
    <*> .optional "key" Reader.text
    <*> .optional "tempo" tempoReader
    <*> .optional "time_signature" SignatureSpec.reader
    <*> .orDefault "measures" (Reader.list ((Measure.record source).read source)) []

/-- Reads the text as it stands. -/
def ofText (text : String) : Except DecodeError Score :=
  decode ((record .text).read .text) text

/-- Reads the value of a document, in which no name is repeated. -/
def ofValue (v : Json) : Except DecodeError Score :=
  (record .value).read .value v.canonical

def toJson (s : Score) : Json :=
  .ofMembers
    [("piece_name", s.pieceName.map .string),
     ("composer", s.composer.map .string),
     ("key", s.key.map .string),
     ("tempo", s.tempo),
     ("time_signature", s.signature.map SignatureSpec.toJson),
     ("measures", some (.array (s.measures.map Measure.toJson)))]

end Score

end MeterCheck
