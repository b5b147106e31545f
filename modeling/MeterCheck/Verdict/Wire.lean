import MeterCheck.Score.Wire
import MeterCheck.Verdict.Measure

/-!
# Verdicts in documents

Beats are written as doubles, and a list of unrecognized events only if there are some.
-/

namespace MeterCheck

/-- Beats in a report. -/
def Beats.toNumber (a : Beats) : Json := .double a.toDouble

/-- A list of indices, left out when it is empty. -/
def indices? (ns : List Nat) : Option Json :=
  if ns.isEmpty then none else some (.array (ns.map .ofNat))

def HandResult.toJson (r : HandResult) : Json :=
  .ofMembers
    [("duration", some r.duration.toNumber),
     ("valid", some (.bool r.valid)),
     ("error", some r.error.toNumber),
     ("unrecognized", indices? r.unrecognized)]

def MeasureResult.toJson (r : MeasureResult) : Json :=
  .ofMembers
    [("measure_id", some r.id.toJson),
     ("time_signature", some (.string r.signature.text)),
     ("expected_duration", some r.expected.toNumber),
     ("right_hand_duration", some r.hands.right.duration.toNumber),
     ("left_hand_duration", some r.hands.left.duration.toNumber),
     ("right_hand_valid", some (.bool r.hands.right.valid)),
     ("left_hand_valid", some (.bool r.hands.left.valid)),
     ("both_valid", some (.bool r.bothValid)),
     ("right_hand_error", some r.hands.right.error.toNumber),
     ("left_hand_error", some r.hands.left.error.toNumber),
     ("position", some r.position.toJson),
     ("right_hand_unrecognized", indices? r.hands.right.unrecognized),
     ("left_hand_unrecognized", indices? r.hands.left.unrecognized)]

def MeasureAnswer.toJson (a : MeasureAnswer) : Json :=
  .object
    [("valid", .bool a.valid),
     ("measure_id", a.id.toJson),
     ("time_signature", .string a.signature.text),
     ("expected_duration", a.expected.toNumber),
     ("right_hand", a.hands.right.toJson),
     ("left_hand", a.hands.left.toJson)]

end MeterCheck
