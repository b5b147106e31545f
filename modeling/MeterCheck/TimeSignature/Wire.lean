import MeterCheck.TimeSignature.Basic
import MeterCheck.Decode.Fields

/-!
# Time signatures in documents

A specification is a text, or an object with an integer numerator and denominator. A resolved
signature is a record of two unsigned words, which need not be positive.
-/

namespace MeterCheck

namespace SignatureSpec

/-- The only member of that name, if it is an integer. -/
def part? (name : String) (members : Members) : Option Int :=
  match Fields.occurrences name members with
  | [(_, .int n)] => if Text.isSigned64 n then some n else none
  | _ => none

def ofJson? : Json → Option SignatureSpec
  | .string s => some (.text s)
  | .object members => do
    return .pair (← part? "numerator" members) (← part? "denominator" members)
  | _ => none

def reader : Reader SignatureSpec := fun v => do
  let v ← Reader.document v
  match ofJson? v with
  | some spec => .ok spec
  | none => .error (.noVariant "TimeSignatureSpec")

def toJson : SignatureSpec → Json
  | .text s => .string s
  | .pair n d => .object [("numerator", .int n), ("denominator", .int d)]

end SignatureSpec

namespace TimeSignature

def record : Record TimeSignature where
  title := "TimeSignature"
  fields := TimeSignature.mk
    <$> .required "numerator" Reader.unsigned32
    <*> .required "denominator" Reader.unsigned32

def toJson (s : TimeSignature) : Json :=
  .object [("numerator", .ofNat s.numerator), ("denominator", .ofNat s.denominator)]

end TimeSignature

end MeterCheck
