/-!
# Binary floating point with 64 bits

A double is kept as a sign, a mantissa and a binary exponent, and every operation is exact
arithmetic followed by `nearest`, the one rounding rule of the format.

* `nearest`: a quotient of natural numbers rounded to a double, a half to the even mantissa;
* `ofInt`, `add`, `mul`, `div`: the rounded results of exact operations;
* `bits`: the 64-bit encoding.
-/

namespace MeterCheck

/--
The number `± mantissa * 2 ^ exponent`. A value made by `nearest` is in normal form: its mantissa
is below `2 ^ 53`, and at least `2 ^ 52` unless the exponent is `-1074`. An overflow is
`2 ^ 52 * 2 ^ 972`, which encodes as infinity.
-/
structure Binary64 where
  negative : Bool
  mantissa : Nat
  exponent : Int
  deriving DecidableEq, Repr

namespace Binary64

/-- The exponent of the smallest unit. -/
def minExponent : Int := -1074

/-- The exponent of the largest finite doubles. -/
def maxExponent : Int := 971

def zero (negative : Bool) : Binary64 := ⟨negative, 0, minExponent⟩

def infinity (negative : Bool) : Binary64 := ⟨negative, 0x10000000000000, maxExponent + 1⟩

def isFinite (x : Binary64) : Bool := x.exponent ≤ maxExponent

/-- The quotient rounded to a natural number, a half to the even neighbour. -/
def roundDiv (num den : Nat) : Nat :=
  let q := num / den
  let r := 2 * (num % den)
  if r < den ∨ (r = den ∧ q % 2 = 0) then q else q + 1

/-- The fraction `num / den` divided by `2 ^ e`, as a fraction. -/
def unscale (num den : Nat) (e : Int) : Nat × Nat :=
  (num <<< (-e).toNat, den <<< e.toNat)

/-- The `l` with `2 ^ l ≤ num / den < 2 ^ (l + 1)`. -/
def log2Ratio (num den : Nat) : Int :=
  let guess := (num.log2 : Int) - den.log2
  let (n, d) := unscale num den guess
  if d ≤ n then guess else guess - 1

/-- The double nearest to `± num / den`; of two equally near the one with an even mantissa. -/
def nearest (negative : Bool) (num den : Nat) : Binary64 :=
  if num = 0 then zero negative
  else
    let e := max (log2Ratio num den - 52) minExponent
    let (n, d) := unscale num den e
    let m := roundDiv n d
    let (m, e) := if m = 0x20000000000000 then (0x10000000000000, e + 1) else (m, e)
    if maxExponent < e then infinity negative else ⟨negative, m, e⟩

/-- The double nearest to `± num / den * 2 ^ e`. -/
def nearestScaled (negative : Bool) (num den : Nat) (e : Int) : Binary64 :=
  let (n, d) := unscale num den (-e)
  nearest negative n d

def ofNat (n : Nat) : Binary64 := nearest false n 1

def ofInt (n : Int) : Binary64 := nearest (n < 0) n.natAbs 1

def neg (x : Binary64) : Binary64 := { x with negative := !x.negative }

def mul (x y : Binary64) : Binary64 :=
  nearestScaled (x.negative != y.negative) (x.mantissa * y.mantissa) 1 (x.exponent + y.exponent)

def div (x y : Binary64) : Binary64 :=
  nearestScaled (x.negative != y.negative) x.mantissa y.mantissa (x.exponent - y.exponent)

/-- The mantissa with its sign, in units of `2 ^ e` for an `e` that is not above the exponent. -/
def inUnits (x : Binary64) (e : Int) : Int :=
  let m : Int := (x.mantissa <<< (x.exponent - e).toNat : Nat)
  if x.negative then -m else m

def add (x y : Binary64) : Binary64 :=
  let e := min x.exponent y.exponent
  let sum := x.inUnits e + y.inUnits e
  nearestScaled (sum < 0 || (sum == 0 && x.negative && y.negative)) sum.natAbs 1 e

/-- The encoding: sign bit, 11 bits of biased exponent, 52 bits of mantissa. -/
def bits (x : Binary64) : Nat :=
  (if x.negative then 0x8000000000000000 else 0)
    + if x.mantissa < 0x10000000000000 then x.mantissa
      else (x.exponent - minExponent + 1).toNat <<< 52 + (x.mantissa - 0x10000000000000)

end Binary64

end MeterCheck
