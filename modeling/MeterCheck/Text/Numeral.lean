/-!
# Decimal numerals

Reading integers written in ASCII digits with an optional sign, within the ranges of 64-bit and
32-bit words.
-/

namespace MeterCheck.Text

/-- The value of an ASCII digit. -/
def digit? (c : Char) : Option Nat :=
  if '0' ≤ c ∧ c ≤ '9' then some (c.toNat - '0'.toNat) else none

/-- The number with these digits, the most significant first. -/
def ofDigits (ds : List Nat) : Nat := ds.foldl (fun n d => 10 * n + d) 0

/-- One or more ASCII digits. -/
def natural? (cs : List Char) : Option Nat :=
  if cs.isEmpty then none else (cs.mapM digit?).map ofDigits

/-- An optional `+` and digits, at most `2 ^ 32 - 1`. -/
def unsigned32? (cs : List Char) : Option Nat :=
  let digits := match cs with
    | '+' :: rest => rest
    | _ => cs
  (natural? digits).filter (· < 0x100000000)

/-- An optional sign and digits. -/
def integer? (cs : List Char) : Option Int :=
  match cs with
  | '+' :: rest => (natural? rest).map Int.ofNat
  | '-' :: rest => (natural? rest).map fun n => -Int.ofNat n
  | _ => (natural? cs).map Int.ofNat

/-- Fits a signed 64-bit word. -/
def isSigned64 (n : Int) : Bool := -0x8000000000000000 ≤ n && n < 0x8000000000000000

/-- An optional sign and digits, within the signed 64-bit range. -/
def signed64? (cs : List Char) : Option Int := (integer? cs).filter isSigned64

/-- Decimal digits of an integer, with a minus sign when negative. -/
def ofInt (n : Int) : String :=
  match n with
  | .ofNat n => Nat.repr n
  | .negSucc n => "-" ++ Nat.repr (n + 1)

end MeterCheck.Text
