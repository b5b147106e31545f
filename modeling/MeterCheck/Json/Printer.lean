import MeterCheck.Json.Basic
import MeterCheck.Json.Token
import MeterCheck.Binary64.Decimal

/-!
# Writing Json

`text` writes a value without spaces, the members of an object in the order in which they stand.
-/

namespace MeterCheck.Json

mutual

/-- The tokens of a value; a flawed part, which no value has, is written as null. -/
def tokens : Json → List Token
  | .null => [.word ['n', 'u', 'l', 'l']]
  | .bool true => [.word ['t', 'r', 'u', 'e']]
  | .bool false => [.word ['f', 'a', 'l', 's', 'e']]
  | .int n => [.word (Text.ofInt n).toList]
  | .double x => [.word x.text]
  | .string s => [.string (some s)]
  | .array items => .openArray :: [.comma].intercalate (itemTokens items) ++ [.closeArray]
  | .object members => .openObject :: [.comma].intercalate (memberTokens members) ++ [.closeObject]
  | .flawed => [.word ['n', 'u', 'l', 'l']]

def itemTokens : List Json → List (List Token)
  | [] => []
  | v :: rest => v.tokens :: itemTokens rest

def memberTokens : List (String × Json) → List (List Token)
  | [] => []
  | (name, v) :: rest => (.string (some name) :: .colon :: v.tokens) :: memberTokens rest

end

def text (v : Json) : String := String.ofList (v.tokens.flatMap Token.chars)

end MeterCheck.Json
