import MeterCheck.Json.Numeral
import MeterCheck.Json.Token

/-!
# Reading Json

`parse?` reads a text by a machine that takes one token at a time and keeps the open arrays and
objects on a stack. It fails exactly on texts outside the grammar; a part that has no value
becomes `Json.flawed`.
-/

namespace MeterCheck.Json

/-- An open array or object with what has been read of it, latest first. -/
inductive Frame where
  | array (items : List Json)
  | object (members : List (Option String × Json))
  /-- An object whose next member has a name and no value yet. -/
  | member (name : Option String) (members : List (Option String × Json))

/-- What may come next. -/
inductive Expect where
  | value
  | firstItem
  | name
  | firstName
  | colon
  | separator
  deriving DecidableEq, Repr

inductive State where
  | reading (next : Expect) (stack : List Frame)
  | done (v : Json)

/-- Arrays and objects nested deeper than this have no value. -/
def maxDepth : Nat := 127

/-- The value of a literal or of a number. -/
def ofWord? (cs : List Char) : Option Json :=
  if cs = ['n', 'u', 'l', 'l'] then some .null
  else if cs = ['t', 'r', 'u', 'e'] then some (.bool true)
  else if cs = ['f', 'a', 'l', 's', 'e'] then some (.bool false)
  else (Numeral.ofChars? cs).map Numeral.toJson

def ofText : Option String → Json
  | some s => .string s
  | none => .flawed

/-- The object with these members, if each of them has a name. -/
def ofNamed (members : List (Option String × Json)) : Json :=
  match members.mapM fun (name, v) => name.map fun name => (name, v) with
  | some members => .object members
  | none => .flawed

namespace State

/-- Hands a complete value to the innermost open array or object. -/
def deliver (v : Json) : List Frame → Option State
  | [] => some (.done v)
  | .array items :: stack => some (.reading .separator (.array (v :: items) :: stack))
  | .member name members :: stack =>
    some (.reading .separator (.object ((name, v) :: members) :: stack))
  | .object _ :: _ => none

/-- Hands over a container that stood within the given stack. -/
def deliverContainer (v : Json) (stack : List Frame) : Option State :=
  deliver (if stack.length < maxDepth then v else .flawed) stack

def value (stack : List Frame) : Token → Option State
  | .word cs => (ofWord? cs).bind fun v => deliver v stack
  | .string s => deliver (ofText s) stack
  | .openArray => some (.reading .firstItem (.array [] :: stack))
  | .openObject => some (.reading .firstName (.object [] :: stack))
  | _ => none

def closeArray : List Frame → Option State
  | .array items :: stack => deliverContainer (.array items.reverse) stack
  | _ => none

def closeObject : List Frame → Option State
  | .object members :: stack => deliverContainer (ofNamed members.reverse) stack
  | _ => none

def name (stack : List Frame) : Token → Option State
  | .string s => match stack with
    | .object members :: stack => some (.reading .colon (.member s members :: stack))
    | _ => none
  | _ => none

def step : State → Token → Option State
  | .done _, _ => none
  | .reading .value stack, t => value stack t
  | .reading .firstItem stack, .closeArray => closeArray stack
  | .reading .firstItem stack, t => value stack t
  | .reading .name stack, t => name stack t
  | .reading .firstName stack, .closeObject => closeObject stack
  | .reading .firstName stack, t => name stack t
  | .reading .colon stack, .colon => some (.reading .value stack)
  | .reading .colon _, _ => none
  | .reading .separator stack, .comma => match stack with
    | .array _ :: _ => some (.reading .value stack)
    | .object _ :: _ => some (.reading .name stack)
    | _ => none
  | .reading .separator stack, .closeArray => closeArray stack
  | .reading .separator stack, .closeObject => closeObject stack
  | .reading .separator _, _ => none

def start : State := .reading .value []

def result? : State → Option Json
  | .done v => some v
  | .reading _ _ => none

end State

/-- The document with these tokens. -/
def ofTokens? (ts : List Token) : Option Json :=
  (ts.foldlM State.step State.start).bind State.result?

/-- The document that a text holds; none if the text is outside the grammar. -/
def parse? (text : String) : Option Json := (lex text.toList).bind ofTokens?

end MeterCheck.Json
