import MeterCheck.Duration.NoteValue

/-!
# Durations

A duration as it was written, and what it is worth.

* `Piece`: what may stand between commas;
* `Duration`: a piece, pieces that are added up, or a list of durations of which the last one
  counts, since the earlier ones describe notes that are held;
* `text`: the normal written form;
* `value`: the length in beats, with a mark whether every name in it was known.
-/

namespace MeterCheck

inductive Piece where
  | blank
  | name (name : String)
  /-- A number times a note value. -/
  | product (multiplier : Nat) (base : String)
  /-- A number in words and a note value. -/
  | count (number : NumberWord) (unit : String)
  deriving DecidableEq, Repr

inductive Duration where
  | piece (p : Piece)
  | sum (pieces : List Piece)
  | sequence (items : List Duration)
  deriving Repr, Inhabited

def Piece.text : Piece → String
  | blank => ""
  | name n => n
  | product multiplier base => s!"{multiplier} * {base}"
  | count number unit => number.text ++ " " ++ unit

namespace Duration

def blank : Duration := .piece .blank

def isBlank : Duration → Bool
  | .piece .blank => true
  | _ => false

mutual

/-- The pieces of a sum or the items of a list are divided by commas. -/
def text : Duration → String
  | .piece p => p.text
  | .sum pieces => ", ".intercalate (pieces.map Piece.text)
  | .sequence items => "[" ++ ", ".intercalate (itemTexts items) ++ "]"

def itemTexts : List Duration → List String
  | [] => []
  | d :: rest => d.text :: itemTexts rest

end

end Duration

/-- A length; nothing is added for a name that is not known. -/
structure Value where
  beats : Beats
  recognized : Bool
  deriving DecidableEq, Repr

namespace Value

def unknown : Value := ⟨Beats.zero, false⟩

def ofOption : Option Beats → Value
  | some beats => ⟨beats, true⟩
  | none => unknown

def add (a b : Value) : Value := ⟨a.beats + b.beats, a.recognized && b.recognized⟩

def sum (values : List Value) : Value := values.foldl add ⟨Beats.zero, true⟩

end Value

/-- A number of units of a named length. -/
def multiple? (n : Nat) (unit : String) : Option Beats :=
  (noteValue? unit).map (· * Beats.ofInt n)

def Piece.value : Piece → Value
  | blank => .unknown
  | name n => .ofOption (noteValue? n)
  | product multiplier base => .ofOption (multiple? multiplier base)
  | count number unit => .ofOption (multiple? number.value unit)

namespace Duration

mutual

def value : Duration → Value
  | .piece p => p.value
  | .sum pieces => .sum (pieces.map Piece.value)
  | .sequence items => lastValue items

def lastValue : List Duration → Value
  | [] => .unknown
  | [d] => d.value
  | _ :: d :: rest => lastValue (d :: rest)

end

end Duration

end MeterCheck
