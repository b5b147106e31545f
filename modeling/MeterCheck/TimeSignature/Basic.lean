import MeterCheck.Beats
import MeterCheck.Text.Blank

/-!
# Time signatures

* `TimeSignature`: beats to a measure and the note value of a beat;
* `TimeSignature.parse`: reads `6/8`, with blanks around each number;
* `SignatureSpec`: a signature as a score writes it, checked by `SignatureSpec.resolve`;
* `SignatureFault`: what is wrong with a signature that does not resolve.
-/

namespace MeterCheck

structure TimeSignature where
  numerator : Nat
  denominator : Nat
  deriving DecidableEq, Repr

inductive SignaturePart where
  | numerator
  | denominator
  deriving DecidableEq, Repr

def SignaturePart.text : SignaturePart → String
  | numerator => "numerator"
  | denominator => "denominator"

inductive SignatureFault where
  | notTwoParts
  | notInteger (part : SignaturePart)
  | notPositive (part : SignaturePart) (value : Int)
  deriving DecidableEq, Repr

def SignatureFault.message : SignatureFault → String
  | notTwoParts => "expected exactly two '/'-separated integers"
  | notInteger part => part.text ++ " is not an integer"
  | notPositive part value =>
    part.text ++ " must be a positive integer, got " ++ Text.ofInt value

/-- A signature that does not resolve, as it was written, and its first fault. -/
structure SignatureError where
  input : String
  fault : SignatureFault
  deriving DecidableEq, Repr

/-- A part is positive and at most `2 ^ 32 - 1`. -/
def SignaturePart.check (part : SignaturePart) (n : Int) : Except SignatureFault Nat :=
  if 0 < n ∧ n < 0x100000000 then .ok n.toNat else .error (.notPositive part n)

namespace TimeSignature

/-- The signature of a score that declares none. -/
def common : TimeSignature := ⟨4, 4⟩

/-- Checks the numerator first. -/
def check (numerator denominator : Int) : Except SignatureFault TimeSignature := do
  let n ← SignaturePart.numerator.check numerator
  let d ← SignaturePart.denominator.check denominator
  return ⟨n, d⟩

/-- Reads one side of the slash. -/
def readPart (part : SignaturePart) (cs : List Char) : Except SignatureFault Int :=
  match Text.signed64? (Text.trim cs) with
  | some n => .ok n
  | none => .error (.notInteger part)

/-- Two integers with a slash between them. -/
def parse (text : String) : Except SignatureFault TimeSignature :=
  match text.toList.splitOn '/' with
  | [left, right] => do
    let n ← readPart .numerator left
    let d ← readPart .denominator right
    check n d
  | _ => .error .notTwoParts

/-- The length of a measure in quarter notes. -/
def expected (s : TimeSignature) : Beats := .make (s.numerator * 4) s.denominator

def text (s : TimeSignature) : String := s!"{s.numerator}/{s.denominator}"

end TimeSignature

/-- A time signature as written, not yet checked. -/
inductive SignatureSpec where
  | text (s : String)
  | pair (numerator denominator : Int)
  deriving DecidableEq, Repr

namespace SignatureSpec

/-- The written form of the signature in error messages. -/
def input : SignatureSpec → String
  | text s => s
  | pair n d => Text.ofInt n ++ "/" ++ Text.ofInt d

def check : SignatureSpec → Except SignatureFault TimeSignature
  | text s => TimeSignature.parse s
  | pair n d => TimeSignature.check n d

def resolve (spec : SignatureSpec) : Except SignatureError TimeSignature :=
  spec.check.mapError fun fault => ⟨spec.input, fault⟩

def ofSignature (s : TimeSignature) : SignatureSpec := .pair s.numerator s.denominator

end SignatureSpec

end MeterCheck
