import MeterCheck.Beats
import MeterCheck.Text.Blank

/-!
# Names of note values

* `noteValues`: the lengths of the plain and the dotted note values, and of a rest;
* `noteValue?`: the length of a name, with some misspellings and plurals;
* `NumberWord`: the numbers from one to ten in words.
-/

namespace MeterCheck

/-- The note values without a dot, in quarter notes. -/
def plainValues : List (String × Beats) :=
  [("whole", ⟨4, 1⟩), ("half", ⟨2, 1⟩), ("quarter", ⟨1, 1⟩), ("eighth", ⟨1, 2⟩),
   ("sixteenth", ⟨1, 4⟩), ("thirty-second", ⟨1, 8⟩), ("thirty_second", ⟨1, 8⟩),
   ("thirty second", ⟨1, 8⟩)]

/-- A dot adds half of the length. -/
def dotted (a : Beats) : Beats := a * Beats.make 3 2

def noteValues : List (String × Beats) :=
  plainValues ++ plainValues.map (fun (name, a) => ("dotted " ++ name, dotted a))
    ++ [("rest", Beats.zero)]

/-- The name in the table that a misspelling or a plural stands for. -/
def unitName (name : String) : String :=
  if name = "eigth" ∨ name = "eigths" ∨ name = "eighths" then "eighth"
  else if name = "sixteenths" then "sixteenth"
  else if name = "quarters" then "quarter"
  else if name = "halves" then "half"
  else name

/-- The length of a lower-case name; blanks around it do not matter. -/
def noteValue? (name : String) : Option Beats :=
  noteValues.lookup (unitName (String.ofList (Text.trim name.toList)))

/-- A number in words. -/
inductive NumberWord where
  | one | two | three | four | five | six | seven | eight | nine | ten
  deriving DecidableEq, Repr

namespace NumberWord

def all : List NumberWord := [one, two, three, four, five, six, seven, eight, nine, ten]

def value : NumberWord → Nat
  | one => 1
  | two => 2
  | three => 3
  | four => 4
  | five => 5
  | six => 6
  | seven => 7
  | eight => 8
  | nine => 9
  | ten => 10

def text : NumberWord → String
  | one => "one"
  | two => "two"
  | three => "three"
  | four => "four"
  | five => "five"
  | six => "six"
  | seven => "seven"
  | eight => "eight"
  | nine => "nine"
  | ten => "ten"

def ofText? (name : String) : Option NumberWord := all.find? fun w => w.text = name

end NumberWord

end MeterCheck
