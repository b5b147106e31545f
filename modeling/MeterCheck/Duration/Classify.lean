import MeterCheck.Duration.Basic
import MeterCheck.Text.LowerCase

/-!
# Durations from text

* `normalize`: lower case, with single spaces between words;
* `Piece.ofNormal`: an asterisk makes a product, a number word before another word a count, and
  anything else is a name;
* `Duration.classify`: a text with commas is the sum of its pieces.
-/

namespace MeterCheck

/-- Lower case, with one space between words and none around them. -/
def normalize (cs : List Char) : List Char := Text.lower (Text.squeeze cs)

namespace Piece

/-- Around the first asterisk; what follows a second one is dropped. -/
def ofProduct (cs : List Char) : Piece :=
  let left := cs.takeWhile (· != '*')
  let right := (cs.dropWhile (· != '*')).tail.takeWhile (· != '*')
  match Text.unsigned32? (Text.trim left) with
  | some n => .product n (String.ofList (Text.trim right))
  | none => .name (String.ofList cs)

/-- A count takes the first two words; what follows them is dropped. -/
def ofWords (cs : List Char) : Piece :=
  match cs.splitOn ' ' with
  | first :: unit :: _ =>
    match NumberWord.ofText? (String.ofList first) with
    | some w => .count w (String.ofList unit)
    | none => .name (String.ofList cs)
  | _ => .name (String.ofList cs)

/-- The piece that a normal text without commas describes. -/
def ofNormal (cs : List Char) : Piece :=
  if cs.isEmpty then .blank
  else if cs.contains '*' then ofProduct cs
  else ofWords cs

end Piece

namespace Duration

/-- The duration that a text describes. -/
def classify (text : String) : Duration :=
  let cs := normalize text.toList
  match cs.splitOn ',' with
  | [_] => .piece (.ofNormal cs)
  | pieces => .sum (pieces.map fun p => .ofNormal (normalize p))

/-- The length that a text describes. -/
def beatsOf (text : String) : Beats := (classify text).value.beats

end Duration

end MeterCheck
