import MeterCheck.Report.Deviation

/-!
# Log

* `LogEntry`: what the library reports while it works, with a level and a text;
* `Logged`: a value and the entries made on the way to it.
-/

namespace MeterCheck

inductive Level where
  | error
  | warn
  | info
  | debug
  deriving DecidableEq, Repr

def Level.text : Level → String
  | error => "ERROR"
  | warn => "WARN"
  | info => "INFO"
  | debug => "DEBUG"

inductive LogEntry where
  /-- A measure has another signature than the one before it. -/
  | signatureChange (id : MeasureId) (signature : TimeSignature)
  | unrecognized (id : MeasureId) (hand : Hand) (events : List Nat)
  | judged (result : MeasureResult)
  | deviation (d : Deviation)
  | summary (total valid invalid : Nat)
  | shapeErrors (count : Nat)
  /-- A request that was answered with an error. -/
  | failure (context message : String)
  /-- An answer that could not be written. -/
  | unwritable (message : String)
  deriving DecidableEq, Repr

namespace LogEntry

def level : LogEntry → Level
  | signatureChange .. => .debug
  | unrecognized .. => .warn
  | judged _ => .debug
  | deviation _ => .warn
  | summary .. => .info
  | shapeErrors _ => .warn
  | failure .. => .error
  | unwritable _ => .error

def message : LogEntry → String
  | signatureChange id signature =>
    s!"Measure {id.display}: time signature changes to {signature.text}"
  | unrecognized id hand events =>
    s!"Measure {id.display}: {hand.label} has unrecognized durations at events ["
      ++ ", ".intercalate (events.map Nat.repr) ++ "]"
  | judged r =>
    s!"Measure {r.id.display} ({r.signature.text}): expected {r.expected.text}, "
      ++ s!"right {r.hands.right.duration.text}, left {r.hands.left.duration.text}, "
      ++ s!"valid={r.bothValid}"
  | deviation d => d.text
  | summary total valid invalid =>
    s!"Validated {total} measures: {valid} valid, {invalid} invalid"
  | shapeErrors count => s!"Structure check found {count} error(s)"
  | failure context message => s!"{context}: {message}"
  | unwritable message => "Serialization error: " ++ message

def text (e : LogEntry) : String := e.level.text ++ " " ++ e.message

end LogEntry

/-- A value and the log entries made on the way, in order. -/
structure Logged (α : Type) where
  value : α
  log : List LogEntry
  deriving DecidableEq, Repr

namespace Logged

instance : Monad Logged where
  pure a := ⟨a, []⟩
  bind x f := ⟨(f x.value).value, x.log ++ (f x.value).log⟩

def tell (entries : List LogEntry) : Logged Unit := ⟨(), entries⟩

variable {α β : Type}

@[simp]
theorem value_pure (a : α) : (pure a : Logged α).value = a := rfl

@[simp]
theorem log_pure (a : α) : (pure a : Logged α).log = [] := rfl

@[simp]
theorem value_bind (x : Logged α) (f : α → Logged β) : (x >>= f).value = (f x.value).value := rfl

@[simp]
theorem log_bind (x : Logged α) (f : α → Logged β) :
    (x >>= f).log = x.log ++ (f x.value).log := rfl

@[simp]
theorem value_map (f : α → β) (x : Logged α) : (f <$> x).value = f x.value := rfl

@[simp]
theorem log_map (f : α → β) (x : Logged α) : (f <$> x).log = x.log := List.append_nil x.log

theorem ext {x y : Logged α} (hv : x.value = y.value) (hl : x.log = y.log) : x = y := by
  cases x
  cases y
  simp_all

instance : LawfulMonad Logged :=
  LawfulMonad.mk' Logged
    (fun x => ext rfl (List.append_nil x.log))
    (fun _ _ => rfl)
    (fun x _ _ => ext rfl (List.append_assoc x.log _ _))

end Logged

/-- The entries that a verdict leaves. -/
def MeasureResult.entries (r : MeasureResult) : List LogEntry :=
  (Hand.both.filterMap fun hand =>
    let events := (r.hands.get hand).unrecognized
    if events.isEmpty then none else some (.unrecognized r.id hand events))
    ++ [.judged r]

end MeterCheck
