import MeterCheck.Duration.Classify
import MeterCheck.Decode.Reader
import MeterCheck.Json.Printer

/-!
# Durations in documents

A duration is a text or a list of durations. Null and the empty list are the blank duration, and
any other value is a name that no table knows.
-/

namespace MeterCheck.Duration

/-- The written form of a value as a name. -/
def ofScalar (v : Json) : Duration :=
  .piece (.name (String.ofList (normalize v.canonical.text.toList)))

mutual

def ofJson : Json → Duration
  | .string s => classify s
  | .array [] => blank
  | .array (v :: rest) => .sequence (ofJson v :: ofItems rest)
  | .null => blank
  | v => ofScalar v

def ofItems : List Json → List Duration
  | [] => []
  | v :: rest => ofJson v :: ofItems rest

end

mutual

def toJson : Duration → Json
  | .piece .blank => .null
  | .piece p => .string p.text
  | .sum pieces => .string (Duration.sum pieces).text
  | .sequence items => .array (itemsToJson items)

def itemsToJson : List Duration → List Json
  | [] => []
  | d :: rest => toJson d :: itemsToJson rest

end

/-- Reads any sound value. -/
def reader : Reader Duration := fun v => (Reader.document v).map ofJson

end MeterCheck.Duration
