import MeterCheck.Score.Basic
import MeterCheck.Json.Printer

/-!
# Statistics of a score

How many events a score has, which pitches occur in it, and how often each duration does.
-/

namespace MeterCheck

structure Statistics where
  key : String
  tempo : String
  measureCount : Nat
  totalEvents : Nat
  events : Hands Nat
  /-- The different pitches in order. -/
  pitches : List String
  pitchCount : Nat
  /-- The number of events of each duration. -/
  durations : Table Nat
  deriving Repr

/-- The events of a measure, the right hand before the left. -/
def Measure.events (m : Measure) : List Event := m.voices.right ++ m.voices.left

theorem Measure.mem_events {m : Measure} {e : Event} :
    e ∈ m.events ↔ ∃ hand, e ∈ m.voice hand := by
  rw [events, List.mem_append]
  constructor
  · rintro (hright | hleft)
    · exact ⟨.right, hright⟩
    · exact ⟨.left, hleft⟩
  · rintro ⟨hand, he⟩
    cases hand with
    | right => exact .inl he
    | left => exact .inr he

/-- The name under which a duration is counted. -/
def Duration.bucket (d : Duration) : String := if d.isBlank then "unknown" else d.text

namespace Score

def events (s : Score) : List Event := s.measures.flatMap Measure.events

/-- A text as it is, another value in its written form. -/
def tempoText (s : Score) : String :=
  match s.tempo with
  | some (.string text) => text
  | some v => v.text
  | none => "Unknown"

def statistics (s : Score) : Statistics :=
  let count (hand : Hand) := (s.measures.flatMap fun m => m.voice hand).length
  let pitches := Table.names (s.events.flatMap Event.pitches)
  { key := s.key.getD "Unknown"
    tempo := s.tempoText
    measureCount := s.measures.length
    totalEvents := count .right + count .left
    events := .ofFn count
    pitches
    pitchCount := pitches.length
    durations := Table.counts (s.events.map fun e => e.duration.bucket) }

end Score

def Statistics.toJson (s : Statistics) : Json :=
  .object
    [("key", .string s.key),
     ("tempo", .string s.tempo),
     ("measure_count", .ofNat s.measureCount),
     ("total_events", .ofNat s.totalEvents),
     ("right_hand_events", .ofNat s.events.right),
     ("left_hand_events", .ofNat s.events.left),
     ("unique_pitches", .array (s.pitches.map .string)),
     ("unique_pitch_count", .ofNat s.pitchCount),
     ("duration_types", .object (s.durations.map fun (name, n) => (name, .ofNat n)))]

end MeterCheck
