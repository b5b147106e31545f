import MeterCheck.Decode.Reader

/-!
# Reading records

`Fields` is an applicative reader of the members of an object. Of several faults it reports the
one that comes first in the document; a missing member counts as a fault at the end.

* `Record.read`: a record written as an object, or as the array of its fields in order;
* `Source.surplus`: what is said of an array with more items than the record has fields.
-/

namespace MeterCheck

/-- What is read: a text, the value of a document, or members that were set aside first. -/
inductive Source where
  | text
  | value
  | buffer
  deriving DecidableEq, Repr

/-- A number of things, in words. -/
def countOf (n : Nat) (thing : String) : String :=
  if n = 1 then s!"1 {thing}" else s!"{n} {thing}s"

/-- The error for an array of `present` items in place of a record of `known` fields. -/
def Source.surplus (source : Source) (known present : Nat) : DecodeError :=
  match source with
  | text => .malformed
  | value => .wrongLength present "fewer elements in array"
  | buffer => .wrongLength present (countOf known "element" ++ " in sequence")

abbrev Members := List (String × Json)

/-- A fault and the index of the member that shows it. -/
abbrev Fault := Nat × DecodeError

/-- Reads some members of an object, in any order; `names` lists them as they are declared. -/
structure Fields (α : Type) where
  names : List String
  read : Members → Except Fault α

namespace Fields

variable {α β : Type}

/-- Both results, or the fault that comes first. -/
def both : Except Fault (α → β) → Except Fault α → Except Fault β
  | .ok f, .ok a => .ok (f a)
  | .ok _, .error e => .error e
  | .error e, .ok _ => .error e
  | .error e, .error e' => .error (if e'.1 < e.1 then e' else e)

instance : Applicative Fields where
  pure a := { names := [], read := fun _ => .ok a }
  seq f x :=
    { names := f.names ++ (x ()).names
      read := fun members => both (f.read members) ((x ()).read members) }

/-- The members of one name with their indices. -/
def occurrences (name : String) (members : Members) : List (Nat × Json) :=
  members.zipIdx.filterMap fun ((n, v), i) => if n = name then some (i, v) else none

/-- The one member of that name; `absent` says what it means that there is none. -/
def field (name : String) (read : Reader α) (absent : Except DecodeError α) : Fields α where
  names := [name]
  read members :=
    match occurrences name members with
    | [] => absent.mapError fun e => (members.length, e)
    | (i, v) :: rest =>
      match read v with
      | .error e => .error (i, e)
      | .ok a =>
        match rest with
        | [] => .ok a
        | (j, _) :: _ => .error (j, .duplicateField name)

def required (name : String) (read : Reader α) : Fields α :=
  field name read (.error (.missingField name))

def withDefault (name : String) (read : Reader α) (default : α) : Fields α :=
  field name read (.ok default)

/-- A member that may be missing or null. -/
def optional (name : String) (read : Reader α) : Fields (Option α) :=
  withDefault name read.optional none

/-- A member that takes its default when it is missing or null. -/
def orDefault (name : String) (read : Reader α) (default : α) : Fields α :=
  withDefault name (read.orDefault default) default

end Fields

/-- A record type as it is written: its title in messages and its fields. -/
structure Record (α : Type) where
  title : String
  fields : Fields α

namespace Record

variable {α : Type}

def expected (r : Record α) : String := "struct " ++ r.title

/-- Reads the fields from an array of their values in the order of declaration. -/
def readItems (r : Record α) (source : Source) (items : List Json) : Except DecodeError α :=
  let members := r.fields.names.zip items
  let known := r.fields.names.length
  match r.fields.read members with
  | .error (i, e) =>
    if i < members.length then .error e
    else .error (.wrongLength items.length (r.expected ++ " with " ++ countOf known "element"))
  | .ok a =>
    if known < items.length then .error (source.surplus known items.length) else .ok a

def read (r : Record α) (source : Source) : Reader α
  | .object members => (r.fields.read members).mapError Prod.snd
  | .array items => r.readItems source items
  | v => mismatch r.expected v

end Record

end MeterCheck
