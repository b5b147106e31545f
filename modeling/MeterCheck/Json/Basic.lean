import MeterCheck.Binary64.Basic
import MeterCheck.Table

/-!
# Json values

`Json` is a document as it was written: the members of an object stand in text order, and a
repeated name stands as often as it was written.

* `sound`: no part of the document is flawed, so that it has a value;
* `canonical`: the value it stands for, with the members of each object in the order of their
  names and the last of several members of one name.
-/

namespace MeterCheck

/--
A well-formed document. `flawed` is a part that follows the grammar and has no value: a number
beyond the doubles, a text with half of a surrogate pair, an object with such a name, or an array
or object nested too deep.
-/
inductive Json where
  | null
  | bool (b : Bool)
  | int (n : Int)
  | double (x : Binary64)
  | string (s : String)
  | array (items : List Json)
  | object (members : List (String × Json))
  | flawed
  deriving Repr, Inhabited

namespace Json

mutual

/-- No part is flawed. -/
def sound : Json → Bool
  | .array items => soundItems items
  | .object members => soundMembers members
  | .flawed => false
  | _ => true

def soundItems : List Json → Bool
  | [] => true
  | v :: rest => v.sound && soundItems rest

def soundMembers : List (String × Json) → Bool
  | [] => true
  | (_, v) :: rest => v.sound && soundMembers rest

end

mutual

/-- Members in the order of their names, the last one of each name. -/
def canonical : Json → Json
  | .array items => .array (canonicalItems items)
  | .object members => .object (Table.ofList (canonicalMembers members))
  | v => v

def canonicalItems : List Json → List Json
  | [] => []
  | v :: rest => v.canonical :: canonicalItems rest

def canonicalMembers : List (String × Json) → List (String × Json)
  | [] => []
  | (name, v) :: rest => (name, v.canonical) :: canonicalMembers rest

end

/-- The first member of that name, if the value is an object that has one. -/
def member? (name : String) : Json → Option Json
  | .object members => members.lookup name
  | _ => none

def items? : Json → Option (List Json)
  | .array items => some items
  | _ => none

def isObject : Json → Bool
  | .object _ => true
  | _ => false

/-- The object with the members whose value is present. -/
def ofMembers (members : List (String × Option Json)) : Json :=
  .object (members.filterMap fun (name, v) => v.map fun v => (name, v))

def ofNat (n : Nat) : Json := .int n

end Json

end MeterCheck
