import MeterCheck.Decode.Fields

/-!
# Marks

* `Mark`: a remark about one place in a document;
* `Diagnostics`: the marks on a document in the order in which they were made.
-/

namespace MeterCheck

inductive Severity where
  | error
  | warning
  deriving DecidableEq, Repr

namespace Severity

def known : List (String × Severity) := [("error", error), ("warning", warning)]

def text : Severity → String
  | error => "error"
  | warning => "warning"

def reader : Reader Severity := .variant known

end Severity

/-- The path leads from the root to the place, as in `/measures/2/left_hand/0`. -/
structure Mark where
  path : String
  severity : Severity
  kind : String
  message : String
  deriving DecidableEq, Repr

namespace Mark

def record : Record Mark where
  title := "DiagnosticMark"
  fields := Mark.mk
    <$> .required "path" Reader.text
    <*> .required "severity" Severity.reader
    <*> .required "kind" Reader.text
    <*> .required "message" Reader.text

def toJson (m : Mark) : Json :=
  .object
    [("path", .string m.path), ("severity", .string m.severity.text),
     ("kind", .string m.kind), ("message", .string m.message)]

end Mark

structure Diagnostics where
  marks : List Mark
  deriving DecidableEq, Repr

namespace Diagnostics

def empty : Diagnostics := ⟨[]⟩

def add (d : Diagnostics) (m : Mark) : Diagnostics := ⟨d.marks ++ [m]⟩

def hasErrors (d : Diagnostics) : Bool := d.marks.any fun m => m.severity == .error

def isEmpty (d : Diagnostics) : Bool := d.marks.isEmpty

/-- The messages of one severity, in order. -/
def messages (d : Diagnostics) (severity : Severity) : List String :=
  (d.marks.filter fun m => m.severity == severity).map Mark.message

def record : Record Diagnostics where
  title := "Diagnostics"
  fields := Diagnostics.mk <$> .required "marks" (Reader.list (Mark.record.read .text))

def toJson (d : Diagnostics) : Json := .object [("marks", .array (d.marks.map Mark.toJson))]

end Diagnostics

end MeterCheck
