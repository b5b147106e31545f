import MeterCheck.Proofs.Shape.Sendable
import MeterCheck.Service.Answer

/-!
# Marks that are sent and received

* `Diagnostics.decode_text`: diagnostics are read from their written form;
* `Retells`: what a report says beside its marks is what the marks say;
* `marks_received`: the marks in an answer, read on their own, say what the answer says.
-/

namespace MeterCheck

namespace Mark

variable (m : Mark)

theorem read_severity (s : Severity) : Severity.reader (.string s.text) = .ok s := by
  cases s <;> rfl

/-- The members of a written mark. -/
def members : Members :=
  [("path", .string m.path), ("severity", .string m.severity.text), ("kind", .string m.kind),
   ("message", .string m.message)]

theorem read_toJson (source : Source) : record.read source m.toJson = .ok m := by
  have hnodup : (m.members.map Prod.fst).Nodup := by simp [members]
  have htext {name s : String} (hmem : (name, .string s) ∈ m.members) :
      (Fields.required name Reader.text).read m.members = .ok s :=
    Fields.read_of_mem hnodup hmem rfl
  refine Record.read_object (Fields.seq_eq_ok.2 ⟨_, m.message, Fields.seq_eq_ok.2 ⟨_, m.kind,
    Fields.seq_eq_ok.2 ⟨_, m.severity, Fields.map_eq_ok.2 ⟨m.path, ?path, rfl⟩, ?severity, rfl⟩,
    ?kind, rfl⟩, ?message, rfl⟩) source
  case path => exact htext (by simp [members])
  case severity =>
    have hmem : ("severity", .string m.severity.text) ∈ m.members := by simp [members]
    exact Fields.read_of_mem hnodup hmem (read_severity m.severity)
  case kind => exact htext (by simp [members])
  case message => exact htext (by simp [members])

theorem reread_toJson : m.toJson.reread = m.toJson := by
  rw [toJson, Json.reread_object]
  rfl

end Mark

namespace Diagnostics

variable (d : Diagnostics)

theorem read_toJson (source : Source) : record.read source d.toJson = .ok d := by
  have hmarks : Reader.list (Mark.record.read .text) (.array (d.marks.map Mark.toJson)) =
      .ok d.marks := by
    have hlist : Reader.list (Mark.record.read .text) (.array (d.marks.map Mark.toJson)) =
        .ok (d.marks.map id) := Reader.list_map fun m _ => m.read_toJson .text
    rwa [List.map_id] at hlist
  refine Record.read_object (Fields.map_eq_ok.2 ⟨d.marks, ?_, rfl⟩) source
  exact Fields.read_of_mem (by simp) List.mem_cons_self hmarks

theorem reread_toJson : d.toJson.reread = d.toJson := by
  have hmarks : (d.marks.map Mark.toJson).map Json.reread = d.marks.map Mark.toJson := by
    rw [List.map_map]
    exact List.map_congr_left fun m _ => m.reread_toJson
  rw [toJson, Json.reread_object, List.map_singleton, Json.reread_array, hmarks]

theorem sendable : d.toJson.Sendable 3 :=
  .object (by simp) (List.forall_mem_singleton.2 (.array_map fun m _ => m.sendable 0))

/-- Diagnostics come back, whatever their texts are. -/
theorem decode_text : decode (record.read .text) d.toJson.text = .ok d := by
  apply MeterCheck.decode_text d.sendable.within (by decide)
  rw [reread_toJson]
  exact d.read_toJson .text

end Diagnostics

/-- The marks of a report, read as diagnostics of their own, say what the report says. -/
structure Retells (document : Json) (d : Diagnostics) : Prop where
  marks : ∃ marks, document.member? "marks" = some marks ∧
    decode (Diagnostics.record.read .text) (Json.object [("marks", marks)]).text = .ok d
  errors : document.member? "errors" = some (.array ((d.messages .error).map .string))
  warnings : document.member? "warnings" = some (.array ((d.messages .warning).map .string))
  valid : document.member? "valid" = some (.bool !d.hasErrors)

namespace ShapeReport

theorem reread_toJson (r : ShapeReport) : r.toJson.reread = r.toJson := by
  have hstrings (texts : List String) : (texts.map Json.string).map Json.reread =
      texts.map .string := by
    rw [List.map_map]
    rfl
  have hmarks : (r.marks.map Mark.toJson).map Json.reread = r.marks.map Mark.toJson := by
    rw [List.map_map]
    exact List.map_congr_left fun m _ => m.reread_toJson
  simp only [toJson, Json.reread_object, List.map_cons, List.map_nil, Json.reread_array, hstrings,
    hmarks]
  rfl

theorem retells_build (d : Diagnostics) (score : Json) : Retells (build d score).toJson d where
  marks := ⟨.array (d.marks.map Mark.toJson), rfl, d.decode_text⟩
  errors := rfl
  warnings := rfl
  valid := rfl

end ShapeReport

/-- The shape of a document that was read is answered by the report on it. -/
theorem checkStructure_of_decode (wording : Wording) {text : String} {v : Json}
    (h : decode Reader.document text = .ok v) :
    (checkStructure wording text).value = (ShapeReport.ofValue v.canonical).toJson.text := by
  rw [checkStructure, h, ← ShapeReport.value_check]
  rfl

/-- A document is read from a text as it stands, if it is sound. -/
theorem parse?_of_decode {text : String} {v : Json} (h : decode Reader.document text = .ok v) :
    Json.parse? text = some v := by
  obtain ⟨w, hparse, hread⟩ := decode_eq_ok.1 h
  unfold Reader.document at hread
  split at hread
  · cases hread
    exact hparse
  · cases hread

/-- The report on a document can be sent, as it has no more measures than the text characters. -/
theorem ShapeReport.sendable_of_decode {text : String} {v : Json} (hlength : text.length < 2 ^ 63)
    (h : decode Reader.document text = .ok v) :
    (ofValue v.canonical).toJson.Sendable Json.maxDepth := by
  have hweight := Json.weight_le_of_parse? (parse?_of_decode h)
  have hcount := measureCount_lt v
  have hsendable : (ofValue v.canonical).toJson.Sendable 3 := sendable (by omega)
  exact hsendable.mono (by decide)

/--
**Marks survive transport.** Diagnostics are read from their written form as they are, whatever
texts there are in them. In the report on the shape of any document, and in the answer to a request
for it, the errors, the warnings and the validity are those of the marks when these are read on
their own.
-/
theorem marks_received (wording : Wording) :
    (∀ d : Diagnostics, decode (Diagnostics.record.read .text) d.toJson.text = .ok d) ∧
    (∀ v : Json, Retells (ShapeReport.check v).value.toJson ⟨v.findings.map Finding.mark⟩) ∧
    ∀ (text : String) (v : Json), text.length < 2 ^ 63 → decode Reader.document text = .ok v →
      ∃ document, Json.parse? (checkStructure wording text).value = some document ∧
        Retells document ⟨v.canonical.findings.map Finding.mark⟩ := by
  refine ⟨Diagnostics.decode_text, fun v => ?report, fun text v hlength hdecode => ?answer⟩
  case report =>
    rw [ShapeReport.value_check]
    exact ShapeReport.retells_build _ v
  case answer =>
    have hsendable := ShapeReport.sendable_of_decode hlength hdecode
    refine ⟨(ShapeReport.ofValue v.canonical).toJson, ?_, ShapeReport.retells_build _ _⟩
    rw [checkStructure_of_decode wording hdecode, hsendable.parse?_text.1,
      ShapeReport.reread_toJson]

/-- A number in the place of a measure, and no tempo. -/
def numberText : String := "\x7b\"key\":\"\u00e9\",\"measures\":[5]\x7d"

def numberValue : Json := .object [("key", .string "\u00e9"), ("measures", .array [.int 5])]

set_option maxRecDepth 20000 in
theorem parse_numberText : Json.parse? numberText = some numberValue := by
  rfl

/-- One error and one warning are received. The text is read, so that no words are needed. -/
theorem marks_received_of_number :
    let silent : Wording := fun _ _ => ""
    let d : Diagnostics :=
      ⟨[⟨"/measures/0", .error, "measure_not_object", "Measure 0 is not an object"⟩,
        ⟨"/tempo", .warning, "missing_tempo", "Missing 'tempo' field"⟩]⟩
    numberText.length < 2 ^ 63 ∧ decode Reader.document numberText = .ok numberValue ∧
      (∃ document, Json.parse? (checkStructure silent numberText).value = some document ∧
        Retells document d) ∧
      d.messages .error = ["Measure 0 is not an object"] ∧ d.hasErrors = true := by
  intro silent d
  have hlength : numberText.length < 2 ^ 63 := by decide
  have hdecode : decode Reader.document numberText = .ok numberValue := by
    rw [decode, parse_numberText]
    rfl
  have hmarks : (⟨numberValue.canonical.findings.map Finding.mark⟩ : Diagnostics) = d := by
    decide +kernel
  obtain ⟨-, -, hanswer⟩ := marks_received silent
  exact ⟨hlength, hdecode, hmarks ▸ hanswer numberText numberValue hlength hdecode, rfl, rfl⟩

end MeterCheck
