import MeterCheck.Json.Basic

/-!
# Reasons why a document cannot be read

`DecodeError` holds what was wrong with the first part of a document that could not be read as
what was expected there. How it is put into words is left to the library that reads documents:
whatever shows these words takes a `Wording`.
-/

namespace MeterCheck

/-- What stands in a document, as an error tells it. -/
inductive Found where
  | null
  | boolean (b : Bool)
  | integer (n : Int)
  | decimal (x : Binary64)
  | text (s : String)
  | sequence
  | map
  deriving DecidableEq, Repr

/-- What an error tells of a sound value. -/
def Json.found? : Json → Option Found
  | .null => some .null
  | .bool b => some (.boolean b)
  | .int n => some (.integer n)
  | .double x => some (.decimal x)
  | .string s => some (.text s)
  | .array _ => some .sequence
  | .object _ => some .map
  | .flawed => none

/-- Why a document could not be read; `malformed` covers all that is no value of the format. -/
inductive DecodeError where
  | malformed
  | wrongType (found : Found) (expected : String)
  | outOfRange (n : Int) (expected : String)
  | zeroDenominator
  | wrongLength (length : Nat) (expected : String)
  | missingField (name : String)
  | duplicateField (name : String)
  | unknownVariant (name : String) (known : List String)
  | noVariant (type : String)
  deriving DecidableEq, Repr

/--
What the reader of a type says of a text that it cannot read, and why. It depends on the text as
well, since the words may tell the line and the column of the fault.
-/
abbrev Wording := (text : String) → DecodeError → String

end MeterCheck
