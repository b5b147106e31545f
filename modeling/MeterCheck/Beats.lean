import MeterCheck.Binary64.Basic
import MeterCheck.Text.Numeral

/-!
# Beats

Exact numbers of quarter-note beats, as fractions of signed 64-bit words.

* `make`: a fraction in lowest terms with a positive denominator;
* `add`, `sub`, `mul`, `abs`: arithmetic, which wraps around when a word overflows;
* `cmp`: the order;
* `toDouble`, `text`: beats in reports and in log lines.
-/

namespace MeterCheck

/-- The signed 64-bit word that agrees with `n` modulo `2 ^ 64`. -/
def word (n : Int) : Int := n.bmod 0x10000000000000000

/--
A fraction of two words. Results of arithmetic are in lowest terms with a positive denominator;
a fraction that was read keeps the form in which it was written.
-/
structure Beats where
  numer : Int
  denom : Int
  deriving DecidableEq, Repr

namespace Beats

def zero : Beats := ⟨0, 1⟩

def ofInt (n : Int) : Beats := ⟨n, 1⟩

/-- The fraction in lowest terms with a positive denominator. -/
def make (n d : Int) : Beats :=
  if n = 0 then ⟨0, 1⟩
  else if n = d then ⟨1, 1⟩
  else
    let g : Int := n.gcd d
    let n := n.tdiv g
    let d := d.tdiv g
    if d < 0 then ⟨word (-n), word (-d)⟩ else ⟨n, d⟩

/-- The least common multiple, as a word. -/
def lcm (a b : Int) : Int := word (word (a * b.tdiv (a.gcd b))).natAbs

/-- The numerator of a fraction when its denominator is `l`. -/
def numerOver (a : Beats) (l : Int) : Int := word (a.numer * l.tdiv a.denom)

def add (a b : Beats) : Beats :=
  if a.denom = b.denom then make (word (a.numer + b.numer)) b.denom
  else
    let l := lcm a.denom b.denom
    make (word (a.numerOver l + b.numerOver l)) l

def sub (a b : Beats) : Beats :=
  if a.denom = b.denom then make (word (a.numer - b.numer)) b.denom
  else
    let l := lcm a.denom b.denom
    make (word (a.numerOver l - b.numerOver l)) l

/-- Common factors are divided out before the words are multiplied. -/
def mul (a b : Beats) : Beats :=
  let g : Int := a.numer.gcd b.denom
  let h : Int := a.denom.gcd b.numer
  make (word (a.numer.tdiv g * b.numer.tdiv h)) (word (a.denom.tdiv h * b.denom.tdiv g))

instance : Add Beats := ⟨add⟩

instance : Sub Beats := ⟨sub⟩

instance : Mul Beats := ⟨mul⟩

def isNegative (a : Beats) : Bool :=
  (a.numer < 0 && 0 < a.denom) || (0 < a.numer && a.denom < 0)

def abs (a : Beats) : Beats := if a.isNegative then ⟨word (-a.numer), a.denom⟩ else a

/-- The numerator with the sign of the fraction, over the size of the other denominator. -/
def crossed (a b : Beats) : Int := a.numer * a.denom.sign * b.denom.natAbs

/--
Equal denominators leave the numerators to compare, and equal numerators the denominators, where
the sign of the numerator alone decides which way. Otherwise the fractions are compared exactly.
For positive denominators this is the order of the rational numbers.
-/
def cmp (a b : Beats) : Ordering :=
  if a.denom = b.denom then
    if a.denom < 0 then compare b.numer a.numer else compare a.numer b.numer
  else if a.numer = b.numer then
    if a.numer = 0 then .eq
    else if a.numer < 0 then compare a.denom b.denom
    else compare b.denom a.denom
  else compare (a.crossed b) (b.crossed a)

/-- At most. -/
def le (a b : Beats) : Bool := cmp a b != .gt

/-- The smaller one, the first of two equal ones. -/
def min (a b : Beats) : Beats := if a.le b then a else b

/-- The rounded numerator divided by the rounded denominator. -/
def toDouble (a : Beats) : Binary64 := (Binary64.ofInt a.numer).div (Binary64.ofInt a.denom)

/-- A whole number, or a numerator and a denominator with a slash between them. -/
def text (a : Beats) : String :=
  if a.denom = 1 then Text.ofInt a.numer
  else Text.ofInt a.numer ++ "/" ++ Text.ofInt a.denom

end Beats

end MeterCheck
