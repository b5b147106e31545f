import MeterCheck.Binary64.Basic

/-!
# Decimal text of doubles

* `shortest`: the fewest significant digits that determine the double, nearest to it among those;
* `text`: these digits, positional from `0.00001` to below `1e+16` and scientific beyond;
* `fixed`: a given number of decimal places of the exact value, a half to the even neighbour.
-/

namespace MeterCheck

namespace Binary64

/-- A decimal number `d.ddd * 10 ^ exponent` with its significant digits as a natural number. -/
structure Decimal where
  digits : Nat
  exponent : Int
  deriving DecidableEq, Repr

/--
The numbers that round to a double, as natural numbers over one denominator: the double itself
and the midpoints to its two neighbours, which belong to it when its mantissa is even.
-/
structure Cell where
  lower : Nat
  value : Nat
  upper : Nat
  denominator : Nat
  closed : Bool
  deriving Repr

/-- The cell of a positive finite double. -/
def cell (x : Binary64) : Cell :=
  let below := if x.mantissa = 0x10000000000000 ∧ minExponent < x.exponent then 1 else 2
  let scale := (x.exponent - 2).toNat
  { lower := (4 * x.mantissa - below) <<< scale
    value := (4 * x.mantissa) <<< scale
    upper := (4 * x.mantissa + 2) <<< scale
    denominator := 1 <<< (2 - x.exponent).toNat
    closed := x.mantissa % 2 = 0 }

/-- The cell in units of `10 ^ j`. -/
def Cell.inUnits (c : Cell) (j : Int) : Cell :=
  let up := Nat.pow 10 (-j).toNat
  { c with
    lower := c.lower * up
    value := c.value * up
    upper := c.upper * up
    denominator := c.denominator * Nat.pow 10 j.toNat }

/-- The natural number belongs to the cell. -/
def Cell.holds (c : Cell) (n : Nat) : Bool :=
  let n := n * c.denominator
  if c.closed then c.lower ≤ n && n ≤ c.upper else c.lower < n && n < c.upper

/-- The natural number in the cell nearest to its value, if there is one; the even one of two. -/
def Cell.integer? (c : Cell) : Option Nat :=
  let n := c.value / c.denominator
  if c.holds n then
    if c.holds (n + 1) then some (roundDiv c.value c.denominator) else some n
  else if c.holds (n + 1) then some (n + 1)
  else none

/-- The `k` with `10 ^ k ≤ value < 10 ^ (k + 1)`. -/
def Cell.firstDigit (c : Cell) : Int :=
  let guess := log2Ratio c.value c.denominator * 1233 / 4096
  let reaches (k : Int) : Bool :=
    c.denominator * Nat.pow 10 k.toNat ≤ c.value * Nat.pow 10 (-k).toNat
  if reaches (guess + 1) then guess + 1 else if reaches guess then guess else guess - 1

/-- The fewest digits, at most 17, of a number in the cell of a positive double. -/
def shortest (x : Binary64) : Decimal :=
  let c := x.cell
  let k := c.firstDigit
  let candidate? (n : Nat) : Option Decimal :=
    (c.inUnits (k - n)).integer?.map fun digits =>
      if digits = Nat.pow 10 (n + 1) then ⟨1, k + 1⟩ else ⟨digits, k⟩
  ((List.range 17).findSome? candidate?).getD ⟨0, 0⟩

/-- Exponents of the first digit that are written without an exponent. -/
def isPositional (k : Int) : Bool := -5 ≤ k && k ≤ 15

/-- The digits with a point after the first one, and the exponent with its sign. -/
def scientific (digits : List Char) (k : Int) : List Char :=
  let mantissa := match digits with
    | d :: [] => [d]
    | d :: rest => d :: '.' :: rest
    | [] => []
  mantissa ++ 'e' :: (if k < 0 then '-' else '+') :: Nat.toDigits 10 k.natAbs

/-- The digits with a point in their place and a digit on each side of it. -/
def positional (digits : List Char) (k : Int) : List Char :=
  if k < 0 then
    '0' :: '.' :: List.replicate (-k - 1).toNat '0' ++ digits
  else
    let whole := k.toNat + 1
    let fraction := digits.drop whole
    digits.take whole ++ List.replicate (whole - digits.length) '0'
      ++ '.' :: if fraction.isEmpty then ['0'] else fraction

/-- The shortest text of a finite double. -/
def text (x : Binary64) : List Char :=
  let body :=
    if x.mantissa = 0 then ['0', '.', '0']
    else
      let d := x.shortest
      let digits := Nat.toDigits 10 d.digits
      if isPositional d.exponent then positional digits d.exponent
      else scientific digits d.exponent
  if x.negative then '-' :: body else body

/-- The exact value rounded to `places` decimal places. -/
def fixed (x : Binary64) (places : Nat) : List Char :=
  let (n, d) := unscale (x.mantissa * Nat.pow 10 places) 1 (-x.exponent)
  let digits := Nat.toDigits 10 (roundDiv n d)
  let padded := List.replicate (places + 1 - digits.length) '0' ++ digits
  let whole := padded.length - places
  let body := padded.take whole ++ '.' :: padded.drop whole
  if x.negative then '-' :: body else body

end Binary64

end MeterCheck
