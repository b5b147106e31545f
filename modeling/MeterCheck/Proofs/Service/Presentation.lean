import MeterCheck.Proofs.Score.Rewrite
import MeterCheck.Proofs.Service.Faithful

/-!
# Presentations of requests

* `ScoreRequest.reader_respects`, `MeasureRequest.record_respects`: requests are read alike from all
  presentations;
* `SameOutcome`: answers with one status, which are the same if it is a success;
* `Service.presentation_irrelevant`: so it is for the answers to two presentations of a request.
-/

namespace MeterCheck

namespace ScoreRequest

/-- The settings stand among the fields of the score. -/
def forms : List (String × Form) := ("settings", .record Settings.forms) :: Score.forms

theorem lookup_forms (name : String) (form : Form) (h : Score.forms.lookup name = some form) :
    forms.lookup name = some form := by
  rw [forms, Table.lookup_cons_ite]
  by_cases hname : name = "settings"
  · subst hname
    cases h
  · rwa [if_neg hname]

theorem settingsField_respects : settingsField.Respects forms :=
  .withDefault (Settings.record_respects .text) rfl (by simp) _

variable {members members' : Members}

/-- Members that are set aside stay sound when they are rewritten. -/
theorem setAside_iff (h : Rewrites (.record forms) (.object members) (.object members')) :
    (∀ m ∈ members, m.1 = "settings" ∨ m.2.sound = true) ↔
      ∀ m ∈ members', m.1 = "settings" ∨ m.2.sound = true := by
  have hnull : Json.null.sound = true := rfl
  cases h with
  | permute perm => simp only [perm.mem_iff]
  | insert _ sound => simp [or_imp, forall_and, sound]
  | null => simp [or_imp, forall_and, hnull]
  | member _ inner => simp [or_imp, forall_and, inner.sound_iff]

theorem reader_respects : reader.Respects (.record forms) := by
  intro v v' h r
  rcases h.record_cases with ⟨members, members', rfl, rfl⟩ | ⟨items, items', rfl, rfl⟩
  · rw [reader_eq_ok, reader_eq_ok, setAside_iff h, settingsField_respects _ _ h,
      Score.fields_respect .buffer lookup_forms _ _ h]
  · simp [reader, mismatch_ne_ok]

end ScoreRequest

namespace MeasureRequest

def forms : List (String × Form) :=
  [("measure", .record Measure.forms), ("time_signature", .nullable (.record SignatureSpec.forms)),
   ("position", .value), ("settings", .record Settings.forms)]

theorem record_respects (source : Source) : (record.read source).Respects (.record forms) := by
  refine Fields.Respects.record ?_ rfl (by decide) source
  apply Fields.Respects.seq
  · apply Fields.Respects.seq
    · apply Fields.Respects.seq
      · exact .map _ (.required (Measure.record_respects .text) rfl (by simp))
      · exact .optional SignatureSpec.reader_respects rfl
    · exact .withDefault (.value _) rfl (by simp) _
  · exact .withDefault (Settings.record_respects .text) rfl (by simp) _

end MeasureRequest

/-! ## Answers -/

/-- The status that is read from an answer. -/
def Logged.status? (answer : Logged String) : Option Json :=
  (Json.parse? answer.value).bind (Json.member? "status")

/-- One status for both answers, and one answer if it is a success. -/
structure SameOutcome (answer answer' : Logged String) : Prop where
  status : answer'.status? = answer.status?
  success : answer.status? = some (.string "success") → answer' = answer

/-- An answer with an error, whatever its message is. -/
theorem Logged.status?_failure (message : String) (log : List LogEntry) :
    status? ⟨(Json.failure message).text, log⟩ = some (.string "error") := by
  rw [status?, ((Json.sendable_failure message).parse?_text).1]
  rfl

section

variable {α : Type} {wording : Wording} {read : Reader α} {text text' : String} {context : String}
  {run : α → Run Json}

/-- **Texts from which the same is read** are answered alike. -/
theorem sameOutcome_of_decode (h : ∀ a, decode read text = .ok a ↔ decode read text' = .ok a) :
    SameOutcome (answer context (Run.decode wording read text >>= run))
      (answer context (Run.decode wording read text' >>= run)) := by
  cases ha : decode read text with
  | ok a =>
    rw [Run.decode_eq_pure ha, Run.decode_eq_pure ((h a).1 ha)]
    exact ⟨rfl, fun _ => rfl⟩
  | error e =>
    cases ha' : decode read text' with
    | ok a =>
      rw [(h a).2 ha'] at ha
      cases ha
    | error e' =>
      have hfailure {text : String} {e : DecodeError} (he : decode read text = .error e) :
          (answer context (Run.decode wording read text >>= run)).status? =
            some (.string "error") := by
        rw [Run.decode_eq_throw he]
        exact Logged.status?_failure (ScoreError.unreadable (wording text e)).message _
      refine ⟨by rw [hfailure ha, hfailure ha'], fun hsuccess => ?_⟩
      simp [hfailure ha] at hsuccess

end

/-- Whom a request is sent to. -/
inductive Service where
  | score
  | measure
  | statistics

namespace Service

/-- The form of its requests. -/
def form : Service → Form
  | score => .record ScoreRequest.forms
  | measure => .record MeasureRequest.forms
  | statistics => .record Score.forms

def respond (wording : Wording) : Service → String → Logged String
  | score => validateScore wording
  | measure => validateMeasure wording
  | statistics => scoreStatistics wording

/--
**The presentation of a request does not matter.** Two texts may hold the same request with its
members in another order at any depth, with other members that no field is read from, and with null
in place of absent fields. Then their answers have the same status, and if it is a success they are
the same.
-/
theorem presentation_irrelevant (wording : Wording) (service : Service) {text text' : String}
    {v v' : Json} (hparse : Json.parse? text = some v) (hparse' : Json.parse? text' = some v')
    (hsame : service.form.Same v v') :
    SameOutcome (service.respond wording text) (service.respond wording text') := by
  have hdecode {α : Type} {read : Reader α} (h : read.Respects service.form) (a : α) :
      decode read text = .ok a ↔ decode read text' = .ok a := by
    simp only [decode_eq_ok, hparse, hparse', Option.some.injEq, exists_eq_left', h.same hsame]
  cases service with
  | score => exact sameOutcome_of_decode (hdecode ScoreRequest.reader_respects)
  | measure => exact sameOutcome_of_decode (hdecode (MeasureRequest.record_respects .text))
  | statistics => exact sameOutcome_of_decode (hdecode (Score.record_respects .text))

/-- A score with one measure. -/
def plainText : String := "\x7b\"key\":\"D\",\"measures\":[\x7b\"id\":1\x7d]\x7d"

def plainMembers : Members :=
  [("key", .string "D"), ("measures", .array [.object [("id", .int 1)]])]

/-- The same score with a page, a hand that is null, and the key at the end. -/
def dressedText : String :=
  "\x7b\"page\":[3],\"measures\":[\x7b\"left_hand\":null,\"id\":1\x7d],\"key\":\"D\"\x7d"

def dressedMembers : Members :=
  [("page", .array [.int 3]),
   ("measures", .array [.object [("left_hand", .null), ("id", .int 1)]]), ("key", .string "D")]

set_option maxRecDepth 20000 in
theorem parse_plainText : Json.parse? plainText = some (.object plainMembers) := by
  rfl

set_option maxRecDepth 20000 in
theorem parse_dressedText : Json.parse? dressedText = some (.object dressedMembers) := by
  rfl

/-- The null comes first, then the order of the members, then the page. -/
theorem same_dressed : score.form.Same (.object plainMembers) (.object dressedMembers) := by
  let key : String × Json := ("key", .string "D")
  let id : String × Json := ("id", .int 1)
  let dressed : String × Json := ("measures", .array [.object [("left_hand", .null), id]])
  have hmeasure : Rewrites (.record Measure.forms) (.object ([] ++ [id]))
      (.object ([] ++ ("left_hand", .null) :: [id])) := .null rfl (by decide)
  have hmeasures : Rewrites (.list (.record Measure.forms)) (.array ([] ++ .object [id] :: []))
      (.array ([] ++ .object [("left_hand", .null), id] :: [])) := .item hmeasure
  have hnull : Rewrites score.form (.object ([key] ++ ("measures", .array [.object [id]]) :: []))
      (.object ([key] ++ dressed :: [])) := .member rfl (.nullable hmeasures)
  have horder : Rewrites score.form (.object [key, dressed]) (.object [dressed, key]) :=
    .permute (.swap _ _ _)
  have hpage : Rewrites score.form (.object ([] ++ [dressed, key]))
      (.object ([] ++ ("page", .array [.int 3]) :: [dressed, key])) := .insert (by decide) rfl
  exact .trans _ _ _ (.rel _ _ hnull) (.trans _ _ _ (.rel _ _ horder) (.rel _ _ hpage))

/-- Both answers are reports. The texts are read, so that no words are needed. -/
theorem presentation_irrelevant_of_dressed :
    let silent : Wording := fun _ _ => ""
    SameOutcome (validateScore silent plainText) (validateScore silent dressedText) ∧
      (validateScore silent plainText).status? = some (.string "success") := by
  intro silent
  refine ⟨presentation_irrelevant silent .score parse_plainText parse_dressedText same_dressed, ?_⟩
  have hok : ∃ report, scoreReport silent plainText = .ok report := by
    rw [scoreReport, decode, parse_plainText]
    exact ⟨_, rfl⟩
  obtain ⟨report, hreport⟩ := hok
  have hlength : plainText.length < 2 ^ 63 := by decide
  obtain ⟨document, h⟩ := validateScore_tells silent hlength
  rw [Logged.status?, h.reads]
  exact (h.shows report hreport).1

end Service

end MeterCheck
