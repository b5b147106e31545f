import MeterCheck.Beats
import MeterCheck.Decode.Fields

/-!
# Settings

How the first and the last measure of a score are judged.

* `Settings.positionOf`: where a measure stands, as far as the settings care;
* `Settings.record`: settings in documents.
-/

namespace MeterCheck

/-- Where a measure stands in its score; a boundary measure may be partial. -/
inductive Position where
  | first
  | last
  | middle
  deriving DecidableEq, Repr

inductive BoundaryMode where
  /-- Every measure has to be complete. -/
  | strict
  /-- The first and the last measure may be partial. -/
  | pickup
  deriving DecidableEq, Repr

structure Settings where
  boundary : BoundaryMode
  /-- The least length of a partial voice, if the measure is not shorter. -/
  minimumPartial : Beats
  deriving DecidableEq, Repr

namespace Position

def isBoundary : Position → Bool
  | middle => false
  | _ => true

def known : List (String × Position) := [("first", first), ("last", last), ("middle", middle)]

def text : Position → String
  | first => "first"
  | last => "last"
  | middle => "middle"

def reader : Reader Position := .variant known

def toJson (p : Position) : Json := .string p.text

end Position

namespace BoundaryMode

def known : List (String × BoundaryMode) := [("strict", strict), ("pickup", pickup)]

def text : BoundaryMode → String
  | strict => "strict"
  | pickup => "pickup"

def reader : Reader BoundaryMode := .variant known

def toJson (m : BoundaryMode) : Json := .string m.text

end BoundaryMode

namespace Beats

/-- A fraction as a list of its two parts, kept as it is written. -/
def reader : Reader Beats
  | .array items => do
    let expected := "a tuple of size 2"
    match items with
    | [] => .error (.wrongLength 0 expected)
    | n :: items =>
      let n ← Reader.signed64 n
      match items with
      | [] => .error (.wrongLength 1 expected)
      | d :: items =>
        let d ← Reader.signed64 d
        if items ≠ [] then .error .malformed
        else if d = 0 then .error .zeroDenominator
        else .ok ⟨n, d⟩
  | v => mismatch "a tuple of size 2" v

def toJson (a : Beats) : Json := .array [.int a.numer, .int a.denom]

end Beats

namespace Settings

def default : Settings := ⟨.strict, ⟨1, 1⟩⟩

/-- The position of measure `index` in a score of `count` measures. -/
def positionOf (s : Settings) (index count : Nat) : Position :=
  match s.boundary with
  | .strict => .middle
  | .pickup =>
    if index = 0 then .first else if index + 1 = count then .last else .middle

def record : Record Settings where
  title := "ValidationSettings"
  fields := Settings.mk
    <$> .withDefault "boundary_measures" BoundaryMode.reader default.boundary
    <*> .withDefault "minimum_partial_beats" Beats.reader default.minimumPartial

def toJson (s : Settings) : Json :=
  .object
    [("boundary_measures", s.boundary.toJson), ("minimum_partial_beats", s.minimumPartial.toJson)]

end Settings

end MeterCheck
