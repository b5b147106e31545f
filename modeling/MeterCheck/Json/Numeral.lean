import MeterCheck.Json.Basic
import MeterCheck.Text.Numeral

/-!
# Json numbers

* `Numeral.ofChars?`: the grammar, an optional minus sign, digits without a leading zero, an
  optional fraction and an optional exponent;
* `Numeral.toJson`: the value. Plain integers within a signed or an unsigned 64-bit word stay
  integers. Otherwise the leading digits that fit in 64 bits are taken as a double, which is then
  multiplied or divided by a power of ten, so the last bit is not always that of the nearest
  double.
-/

namespace MeterCheck.Json

/-- A number as written; no digit is left out of an absent fraction. -/
structure Numeral where
  negative : Bool
  whole : List Nat
  fraction : List Nat
  exponent : Option Int
  deriving DecidableEq, Repr

namespace Numeral

def isDigit (c : Char) : Bool := (Text.digit? c).isSome

/-- One or more digits up to the first other character, and the rest. -/
def digits? (cs : List Char) : Option (List Nat × List Char) :=
  match cs.takeWhile isDigit with
  | [] => none
  | ds => some (ds.filterMap Text.digit?, cs.dropWhile isDigit)

/-- The exponent part of a number, which ends it. -/
def exponent? (cs : List Char) : Option (Option Int) :=
  match cs with
  | [] => some none
  | e :: rest =>
    if e = 'e' ∨ e = 'E' then (Text.integer? rest).map some else none

/-- The parts of a number, by the grammar of the format. -/
def ofChars? (cs : List Char) : Option Numeral := do
  let (negative, cs) := match cs with
    | '-' :: rest => (true, rest)
    | _ => (false, cs)
  let (whole, cs) ← digits? cs
  if whole.head? = some 0 ∧ whole ≠ [0] then none
  else
    let (fraction, cs) ← match cs with
      | '.' :: rest => digits? rest
      | _ => some ([], cs)
    let exponent ← exponent? cs
    return { negative, whole, fraction, exponent }

/-- Appends digits to a number for as long as it fits in 64 bits; also the digits left over. -/
def absorb (s : Nat) : List Nat → Nat × List Nat
  | [] => (s, [])
  | d :: ds => if 10 * s + d < 0x10000000000000000 then absorb (10 * s + d) ds else (s, d :: ds)

/-- The power of ten as a double. -/
def power10 (e : Nat) : Binary64 := Binary64.ofNat (Nat.pow 10 e)

/-- The largest power of ten that is a finite double. -/
def maxPower : Nat := 308

/-- The double `s` times `10 ^ e` in one step, two for the smallest numbers; none above range. -/
def scaled? (s : Nat) (e : Int) : Option Binary64 :=
  let x := Binary64.ofNat s
  if s = 0 then some x
  else if 0 ≤ e then
    if maxPower < e then none
    else some (x.mul (power10 e.toNat)) |>.filter Binary64.isFinite
  else
    let e := e.natAbs
    if e ≤ maxPower then some (x.div (power10 e))
    else if e ≤ 2 * maxPower then
      some ((x.div (power10 maxPower)).div (power10 (e - maxPower)))
    else some (Binary64.zero false)

/-- The value; flawed when it is beyond the doubles. -/
def toJson (n : Numeral) : Json :=
  let (s, skipped) := absorb 0 n.whole
  if n.fraction = [] ∧ n.exponent = none ∧ skipped = [] then
    if ¬ n.negative then .int s
    else if s = 0 ∨ 0x8000000000000000 < s then .double (Binary64.ofNat s).neg
    else .int (-s)
  else
    let (s, unread) := absorb s n.fraction
    let taken := n.fraction.length - unread.length
    match scaled? s (skipped.length - taken + n.exponent.getD 0) with
    | some x => .double (if n.negative then x.neg else x)
    | none => .flawed

end Numeral

end MeterCheck.Json
