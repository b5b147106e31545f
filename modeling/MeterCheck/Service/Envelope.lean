import MeterCheck.Json.Printer
import MeterCheck.Log

/-!
# Envelopes

An answer is an object that starts with its status: the members of a payload after `success`, or
a message after `error`.
-/

namespace MeterCheck

inductive Envelope where
  | success (payload : Json)
  | error (message : String)
  deriving Repr

namespace Envelope

def isSuccess : Envelope → Bool
  | success _ => true
  | error _ => false

/-- Why a payload cannot be joined to a status: it has no members. -/
def unwritable (kind : String) : String :=
  "cannot serialize tagged newtype variant Envelope::Success containing " ++ kind

/-- The status comes first, also if the payload has a member of that name. -/
def toJson : Envelope → Except String Json
  | success (.object members) => .ok (.object (("status", .string "success") :: members))
  | success (.int _) => .error (unwritable "an integer")
  | success (.double _) => .error (unwritable "a float")
  | success (.string _) => .error (unwritable "a string")
  | success (.bool _) => .error (unwritable "a boolean")
  | success (.array _) => .error (unwritable "a sequence")
  | success _ => .ok (.object [("status", .string "success")])
  | error message =>
    .ok (.object [("status", .string "error"), ("error_message", .string message)])

/-- The written answer; a payload that cannot be written becomes an error of its own. -/
def text (e : Envelope) : Logged String :=
  match e.toJson with
  | .ok v => pure v.text
  | .error message => do
    Logged.tell [.unwritable message]
    return Json.text
      (.object [("error_message", .string message), ("status", .string "error")])

/-- An error answer, with its entry in the log. -/
def failure (context message : String) : Logged Envelope := do
  Logged.tell [.failure context message]
  return .error message

end Envelope

end MeterCheck
