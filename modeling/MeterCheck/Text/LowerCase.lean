import MeterCheck.Text.CaseTable

/-!
# Lower case

`lower` maps a text to lower case by the full Unicode mappings. Two characters need more than a
table look-up:

* `İ` becomes two characters, `i` and a dot above;
* `Σ` becomes `ς` at the end of a word and `σ` elsewhere (`endsWord`).
-/

namespace MeterCheck.Text

def isCased (c : Char) : Bool := inRanges casedRanges c.toNat

def isCaseIgnorable (c : Char) : Bool := inRanges caseIgnorableRanges c.toNat

/-- The lower-case form within one run, if the code point belongs to it. -/
def CaseRange.lower? (r : CaseRange) (n : Nat) : Option Char :=
  if r.first ≤ n ∧ n ≤ r.last ∧ (n - r.first) % r.step = 0 then
    some (Char.ofNat (n + r.shift).toNat)
  else none

/-- The lower-case form of a character that has one of a single character, else itself. -/
def lowerChar (c : Char) : Char :=
  (lowerRanges.findSome? (·.lower? c.toNat)).getD c

/-- The first character that is not case-ignorable has case. -/
def meetsCased (cs : List Char) : Bool :=
  (cs.dropWhile isCaseIgnorable).head?.any isCased

/-- A sigma between these neighbours ends a word: a cased letter before it and none after it. -/
def endsWord (before after : List Char) : Bool :=
  meetsCased before && !meetsCased after

/-- Lower case of a text whose preceding characters are `before`, nearest first. -/
def lowerFrom (before : List Char) : List Char → List Char
  | [] => []
  | 'İ' :: rest => 'i' :: '\u0307' :: lowerFrom ('İ' :: before) rest
  | 'Σ' :: rest => (if endsWord before rest then 'ς' else 'σ') :: lowerFrom ('Σ' :: before) rest
  | c :: rest => lowerChar c :: lowerFrom (c :: before) rest

def lower (cs : List Char) : List Char := lowerFrom [] cs

end MeterCheck.Text
