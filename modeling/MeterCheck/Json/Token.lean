import MeterCheck.Text.Numeral

/-!
# Json tokens

* `lex`: the tokens of a text. One character decides each step, and only the mode that the
  characters before it led to is remembered;
* `Token.chars`: the written form of a token. A text is written with the shortest escapes, and
  only quotes, backslashes and the characters below the space need one.
-/

namespace MeterCheck.Json

/-- A word is a literal or a number, not yet read; a text is absent if it has no value. -/
inductive Token where
  | openArray
  | closeArray
  | openObject
  | closeObject
  | colon
  | comma
  | word (cs : List Char)
  | string (s : Option String)
  deriving DecidableEq, Repr

/-- A part of a text: a character, or a 16-bit unit given by its number. -/
inductive Piece where
  | char (c : Char)
  | unit (n : Nat)
  deriving DecidableEq, Repr

namespace Piece

def isHigh (n : Nat) : Bool := 0xD800 ≤ n && n < 0xDC00

def isLow (n : Nat) : Bool := 0xDC00 ≤ n && n < 0xE000

/-- The characters; none if half of a surrogate pair stands alone. -/
def join : List Piece → Option (List Char)
  | [] => some []
  | .char c :: rest => (join rest).map (c :: ·)
  | .unit h :: .unit l :: rest =>
    if isHigh h then
      if isLow l then
        (join rest).map (Char.ofNat (0x10000 + (h - 0xD800) * 0x400 + (l - 0xDC00)) :: ·)
      else none
    else if isLow h then none
    else (join (.unit l :: rest)).map (Char.ofNat h :: ·)
  | .unit h :: rest =>
    if isHigh h || isLow h then none else (join rest).map (Char.ofNat h :: ·)

end Piece

/-- What the characters so far leave open; pieces and characters stand latest first. -/
inductive Mode where
  | gap
  | word (cs : List Char)
  | text (pieces : List Piece)
  | escape (pieces : List Piece)
  | unit (pieces : List Piece) (missing : Nat) (value : Nat)
  deriving Repr

namespace Mode

/-- Separates tokens. -/
def isGap (c : Char) : Bool := c = ' ' || c = '\t' || c = '\n' || c = '\r'

/-- May stand in a literal or in a number. -/
def isWord (c : Char) : Bool := c.isAlphanum || c = '+' || c = '-' || c = '.'

def punctuation? (c : Char) : Option Token :=
  match c with
  | '[' => some .openArray
  | ']' => some .closeArray
  | '\x7b' => some .openObject
  | '\x7d' => some .closeObject
  | ':' => some .colon
  | ',' => some .comma
  | _ => none

/-- The character that a one-letter escape stands for. -/
def escape? (c : Char) : Option Char :=
  match c with
  | '"' => some '"'
  | '\\' => some '\\'
  | '/' => some '/'
  | 'b' => some '\x08'
  | 'f' => some '\x0c'
  | 'n' => some '\n'
  | 'r' => some '\r'
  | 't' => some '\t'
  | _ => none

def hexDigit? (c : Char) : Option Nat :=
  if 'a' ≤ c ∧ c ≤ 'f' then some (c.toNat - 'a'.toNat + 10)
  else if 'A' ≤ c ∧ c ≤ 'F' then some (c.toNat - 'A'.toNat + 10)
  else Text.digit? c

/-- A character between tokens. -/
def start (c : Char) : Option (List Token × Mode) :=
  if isGap c then some ([], .gap)
  else if c = '"' then some ([], .text [])
  else if isWord c then some ([], .word [c])
  else (punctuation? c).map fun t => ([t], .gap)

/-- The tokens that a character completes, and the mode after it. -/
def step : Mode → Char → Option (List Token × Mode)
  | .gap, c => start c
  | .word cs, c =>
    if isWord c then some ([], .word (c :: cs))
    else (start c).map fun (ts, m) => (.word cs.reverse :: ts, m)
  | .text ps, c =>
    if c = '"' then some ([.string ((Piece.join ps.reverse).map String.ofList)], .gap)
    else if c = '\\' then some ([], .escape ps)
    else if c.toNat < 0x20 then none
    else some ([], .text (.char c :: ps))
  | .escape ps, c =>
    if c = 'u' then some ([], .unit ps 3 0)
    else (escape? c).map fun c => ([], .text (.char c :: ps))
  | .unit ps missing n, c => (hexDigit? c).map fun d =>
    let n := 16 * n + d
    match missing with
    | 0 => ([], .text (.unit n :: ps))
    | missing + 1 => ([], .unit ps missing n)

/-- The tokens that the end of the text completes. -/
def finish : Mode → Option (List Token)
  | .gap => some []
  | .word cs => some [.word cs.reverse]
  | _ => none

end Mode

/-- The tokens of the characters that follow. -/
def lexFrom : Mode → List Char → Option (List Token)
  | m, [] => m.finish
  | m, c :: cs => do
    let (ts, m) ← m.step c
    return ts ++ (← lexFrom m cs)

def lex (cs : List Char) : Option (List Token) := lexFrom .gap cs

namespace Token

/-- The written form of a character of a text. -/
def escaped (c : Char) : List Char :=
  if c = '"' then ['\\', '"']
  else if c = '\\' then ['\\', '\\']
  else if c = '\x08' then ['\\', 'b']
  else if c = '\t' then ['\\', 't']
  else if c = '\n' then ['\\', 'n']
  else if c = '\x0c' then ['\\', 'f']
  else if c = '\r' then ['\\', 'r']
  else if c.toNat < 0x20 then
    ['\\', 'u', '0', '0', Nat.digitChar (c.toNat / 16), Nat.digitChar (c.toNat % 16)]
  else [c]

def chars : Token → List Char
  | .openArray => ['[']
  | .closeArray => [']']
  | .openObject => ['\x7b']
  | .closeObject => ['\x7d']
  | .colon => [':']
  | .comma => [',']
  | .word cs => cs
  | .string s => '"' :: (s.getD "").toList.flatMap escaped ++ ['"']

end Token

end MeterCheck.Json
