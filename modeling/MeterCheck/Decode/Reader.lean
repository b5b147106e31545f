import MeterCheck.Decode.Error
import MeterCheck.Json.Parser

/-!
# Reading values

A reader gives the value of a part of a document, or the first reason in document order why it
has none.

* readers of texts, integers, lists and one of several named variants;
* `decode`: reads a text; a text that is not sound Json is malformed if it cannot be read,
  whatever else is wrong with it. It may still be read if the flaw lies in a part that no reader
  looks at.
-/

namespace MeterCheck

abbrev Reader (α : Type) := Json → Except DecodeError α

/-- The error for a value that is not of the expected kind. -/
def mismatch {α : Type} (expected : String) (v : Json) : Except DecodeError α :=
  match v.found? with
  | some found => .error (.wrongType found expected)
  | none => .error .malformed

namespace Reader

variable {α : Type}

def text : Reader String
  | .string s => .ok s
  | v => mismatch "a string" v

/-- An integer within a signed 64-bit word. -/
def signed64 : Reader Int
  | .int n => if Text.isSigned64 n then .ok n else .error (.outOfRange n "i64")
  | v => mismatch "i64" v

/-- An integer within an unsigned 32-bit word. -/
def unsigned32 : Reader Nat
  | .int n => if 0 ≤ n ∧ n < 0x100000000 then .ok n.toNat else .error (.outOfRange n "u32")
  | v => mismatch "u32" v

def list (read : Reader α) : Reader (List α)
  | .array items => items.mapM read
  | v => mismatch "a sequence" v

/-- Any sound value. -/
def document : Reader Json := fun v => if v.sound then .ok v else .error .malformed

/-- Null stands for an absent value. -/
def optional (read : Reader α) : Reader (Option α)
  | .null => .ok none
  | v => (read v).map some

/-- Null stands for the default. -/
def orDefault (read : Reader α) (default : α) : Reader α
  | .null => .ok default
  | v => read v

/-- The value that belongs to a name. -/
def named (known : List (String × α)) (name : String) : Except DecodeError α :=
  match known.lookup name with
  | some a => .ok a
  | none => .error (.unknownVariant name (known.map Prod.fst))

/-- One of several names, or an object whose only member has the name and the value null. -/
def variant (known : List (String × α)) : Reader α
  | .string name => named known name
  | .object ((name, v) :: rest) => do
    let a ← named known name
    match v with
    | .null => if rest.isEmpty then .ok a else .error .malformed
    | v => mismatch "unit" v
  | _ => .error .malformed

end Reader

/-- Reads the document that a text holds. -/
def decode {α : Type} (read : Reader α) (text : String) : Except DecodeError α :=
  match Json.parse? text with
  | none => .error .malformed
  | some v => (read v).mapError fun e => if v.sound then e else .malformed

end MeterCheck
