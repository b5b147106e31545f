import MeterCheck.Duration.Classify
import MeterCheck.Json.Basic
import MeterCheck.TimeSignature.Basic

/-!
# Scores

A score is a list of measures, each with one voice for the right hand and one for the left.

* `Hands`: one value for each hand;
* `Event`, `Measure`, `Score`: what a score holds;
* `Score.push`, `Score.modifyLast?`, `Score.dropLast`: building a score step by step.
-/

namespace MeterCheck

inductive Hand where
  | right
  | left
  deriving DecidableEq, Repr

namespace Hand

def both : List Hand := [right, left]

/-- The name of the hand's voice in a document. -/
def key : Hand → String
  | right => "right_hand"
  | left => "left_hand"

def label : Hand → String
  | right => "Right hand"
  | left => "Left hand"

end Hand

/-- One value for each hand. -/
structure Hands (α : Type) where
  right : α
  left : α
  deriving DecidableEq, Repr

namespace Hands

variable {α β : Type}

def get (hs : Hands α) : Hand → α
  | .right => hs.right
  | .left => hs.left

def set (hs : Hands α) (hand : Hand) (a : α) : Hands α :=
  match hand with
  | .right => { hs with right := a }
  | .left => { hs with left := a }

def map (f : α → β) (hs : Hands α) : Hands β := ⟨f hs.right, f hs.left⟩

def swap (hs : Hands α) : Hands α := ⟨hs.left, hs.right⟩

/-- One value made for each hand. -/
def ofFn (f : Hand → α) : Hands α := ⟨f .right, f .left⟩

@[simp]
theorem get_ofFn (f : Hand → α) (hand : Hand) : (ofFn f).get hand = f hand := by
  cases hand <;> rfl

@[simp]
theorem get_map (f : α → β) (hs : Hands α) (hand : Hand) :
    (hs.map f).get hand = f (hs.get hand) := by
  cases hand <;> rfl

@[simp]
theorem get_set_self (hs : Hands α) (hand : Hand) (a : α) : (hs.set hand a).get hand = a := by
  cases hand <;> rfl

@[simp]
theorem swap_swap (hs : Hands α) : hs.swap.swap = hs := rfl

end Hands

inductive MeasureId where
  | number (n : Int)
  | text (s : String)
  deriving DecidableEq, Repr

namespace MeasureId

/-- The identifier of a measure that has none. -/
def unknown : MeasureId := .text "?"

def display : MeasureId → String
  | number n => Text.ofInt n
  | text s => s

end MeasureId

/-- The note that stands for silence. -/
def rest : String := "Rest"

/-- Notes that sound together for one duration. -/
structure Event where
  notes : List String
  duration : Duration
  deriving Repr

namespace Event

/-- The notes that sound. -/
def pitches (e : Event) : List String := e.notes.filter (· != rest)

def isChord (e : Event) : Bool := 1 < e.pitches.length

end Event

structure Measure where
  id : MeasureId
  signature : Option SignatureSpec
  voices : Hands (List Event)
  deriving Repr

namespace Measure

def empty (id : MeasureId) (signature : Option SignatureSpec) : Measure :=
  ⟨id, signature, ⟨[], []⟩⟩

def voice (m : Measure) (hand : Hand) : List Event := m.voices.get hand

def withVoice (m : Measure) (hand : Hand) (events : List Event) : Measure :=
  { m with voices := m.voices.set hand events }

def addEvent (m : Measure) (hand : Hand) (e : Event) : Measure :=
  m.withVoice hand (m.voice hand ++ [e])

end Measure

structure Score where
  pieceName : Option String
  composer : Option String
  key : Option String
  tempo : Option Json
  signature : Option SignatureSpec
  measures : List Measure
  deriving Repr

namespace Score

/-- Nothing but measures. -/
def ofMeasures (measures : List Measure) : Score :=
  ⟨none, none, none, none, none, measures⟩

def empty : Score := ofMeasures []

def push (s : Score) (m : Measure) : Score := { s with measures := s.measures ++ [m] }

def dropLast (s : Score) : Score := { s with measures := s.measures.dropLast }

/-- Changes the last measure; none if there is no measure. -/
def modifyLast? (s : Score) (f : Measure → Measure) : Option Score :=
  s.measures.getLast?.map fun m => s.dropLast.push (f m)

end Score

end MeterCheck
