import MeterCheck.Proofs.Report.Quiet
import MeterCheck.Proofs.Report.Sendable
import MeterCheck.Proofs.Score.Statistics
import MeterCheck.Proofs.Service.Marks
import MeterCheck.Proofs.Service.SameScore
import MeterCheck.Proofs.Service.SingleMeasure

/-!
# What answers say

* `ScoreError.Displays`: the text that each error is shown by;
* `Answers`, `Tells`: the document that an answer is read as, and what it says about a result;
* `Json.Conveys`: a payload that can be sent and shows what is meant;
* `exists_tells`, `exists_tells_of_decode`: an answer tells its result if the payload conveys it;
* `answers_faithful`: so it is for every request, whatever its text is.
-/

namespace MeterCheck

/-! ## Answers -/

/-- The text that an error is shown by. A signature is quoted as it was written. -/
inductive ScoreError.Displays : ScoreError → String → Prop where
  | notTwoParts (input : String) :
      Displays (.malformedSignature ⟨input, .notTwoParts⟩)
        ("Malformed time signature '" ++ input ++ "': " ++
          "expected exactly two '/'-separated integers")
  | notInteger (input : String) (part : SignaturePart) :
      Displays (.malformedSignature ⟨input, .notInteger part⟩)
        ("Malformed time signature '" ++ input ++ "': " ++ (part.text ++ " is not an integer"))
  | notPositive (input : String) (part : SignaturePart) (n : Int) :
      Displays (.malformedSignature ⟨input, .notPositive part n⟩)
        ("Malformed time signature '" ++ input ++ "': " ++
          (part.text ++ " must be a positive integer, got " ++ Text.ofInt n))
  | noMeasures : Displays .noMeasures "No measures found in music data"
  | unreadable (detail : String) : Displays (.unreadable detail) ("Invalid music data: " ++ detail)

theorem ScoreError.displays_message (e : ScoreError) : e.Displays e.message := by
  cases e with
  | malformedSignature e =>
    obtain ⟨input, fault⟩ := e
    cases fault with
    | notTwoParts => exact .notTwoParts input
    | notInteger part => exact .notInteger input part
    | notPositive part n => exact .notPositive input part n
  | noMeasures => exact .noMeasures
  | unreadable detail => exact .unreadable detail

/-- The document of an error answer. -/
def Json.failure (message : String) : Json :=
  .object [("status", .string "error"), ("error_message", .string message)]

/-- The answer is read as a plain object with a status, and it could be written as it was meant. -/
structure Answers (answer : Logged String) (document : Json) : Prop where
  reads : Json.parse? answer.value = some document
  plain : document.Plain
  status : ∃ status ∈ ["success", "error"], document.member? "status" = some (.string status)
  quiet : answer.Quiet

/-- An answer to a request with that result. -/
structure Tells {α : Type} (answer : Logged String) (result : Except ScoreError α)
    (Shows : α → Json → Prop) (document : Json) : Prop extends Answers answer document where
  /-- There is nothing in it but the text of the error. -/
  fails : ∀ e, result = .error e → ∃ message, e.Displays message ∧ document = .failure message
  shows : ∀ a, result = .ok a →
    document.member? "status" = some (.string "success") ∧ Shows a document

/-- An object that can be sent after a status, and that shows something when it is read. -/
inductive Json.Conveys (payload : Json) (Shows : Json → Prop) : Prop where
  | intro {members : Members} (eq : payload = .object members)
      (sendable : (Json.object (("status", .string "success") :: members)).Sendable maxDepth)
      (shows : Shows (Json.object (("status", .string "success") :: members)).reread) :
    Conveys payload Shows

theorem Json.sendable_failure (message : String) : (Json.failure message).Sendable maxDepth := by
  refine .object (by simp) ?_
  simp only [List.forall_mem_cons]
  exact ⟨.string _, .string _, by simp⟩

/-- A payload with a status before it. -/
theorem Json.sendable_success {members : Members} {n : Nat} (h : (Json.object members).Sendable n)
    (hstatus : "status" ∉ members.map Prod.fst) :
    (Json.object (("status", .string "success") :: members)).Sendable n := by
  cases h.within with
  | object all =>
    have hdistinct := Distinct.object_iff.1 h.distinct
    refine .object (List.nodup_cons.2 ⟨hstatus, hdistinct.1⟩) ?_
    exact List.forall_mem_cons.2 ⟨.string _, fun m hm => ⟨all m hm, hdistinct.2 m hm⟩⟩

theorem answers_failure (log : List LogEntry) (context message : String)
    (hlog : ∀ message, .unwritable message ∉ log) :
    Answers ⟨(Json.failure message).text, log ++ [.failure context message]⟩
      (.failure message) := by
  obtain ⟨hreads, hplain⟩ := (Json.sendable_failure message).parse?_text
  refine ⟨hreads, hplain, ⟨"error", by simp, rfl⟩, fun m hm => ?_⟩
  rcases List.mem_append.1 hm with hm | hm
  · exact hlog m hm
  · cases List.mem_singleton.1 hm

section

variable {α : Type} {context : String} {x : Run α} {toJson : α → Json}

theorem answer_of_error {e : ScoreError} (h : x.run.value = .error e) :
    answer context (do return toJson (← x)) =
      ⟨(Json.failure e.message).text, x.run.log ++ [.failure context e.message]⟩ := by
  have hrun : (do return toJson (← x) : Run Json).run = ⟨.error e, x.run.log⟩ := by
    rw [ExceptT.run_bind]
    apply Logged.ext
    · rw [Logged.value_bind, h]
      rfl
    · rw [Logged.log_bind, h]
      exact List.append_nil _
  rw [answer, hrun]
  rfl

theorem answer_of_ok {a : α} {members : Members} (h : x.run.value = .ok a)
    (hmembers : toJson a = .object members) : answer context (do return toJson (← x)) =
      ⟨(Json.object (("status", .string "success") :: members)).text, x.run.log⟩ := by
  have hrun : (do return toJson (← x) : Run Json).run = ⟨.ok (.object members), x.run.log⟩ := by
    rw [ExceptT.run_bind]
    apply Logged.ext
    · rw [Logged.value_bind, h]
      exact congrArg Except.ok hmembers
    · rw [Logged.log_bind, h]
      exact List.append_nil _
  rw [answer, hrun]
  exact Logged.ext rfl (List.append_nil _)

/-- **One answer.** It tells its result if the payload conveys it. -/
theorem exists_tells {Shows : α → Json → Prop} (hquiet : x.run.Quiet)
    (h : ∀ a, x.run.value = .ok a → (toJson a).Conveys (Shows a)) :
    ∃ document, Tells (answer context (do return toJson (← x))) x.run.value Shows document := by
  cases hx : x.run.value with
  | error e =>
    rw [answer_of_error hx]
    refine ⟨.failure e.message, answers_failure _ _ _ hquiet, ?_, nofun⟩
    rintro _ ⟨⟩
    exact ⟨e.message, e.displays_message, rfl⟩
  | ok a =>
    obtain ⟨hmembers, hsendable, hshows⟩ := h a hx
    rename_i members
    obtain ⟨hreads, hplain⟩ := hsendable.parse?_text
    have hstatus : (Json.object (("status", .string "success") :: members)).reread.member?
        "status" = some (.string "success") := by
      rw [Json.reread_object]
      rfl
    rw [answer_of_ok hx hmembers]
    refine ⟨_, ⟨hreads, hplain, ⟨"success", by simp, hstatus⟩, hquiet⟩, nofun, ?_⟩
    rintro _ ⟨⟩
    exact ⟨hstatus, hshows⟩

end

/-! ## Requests -/

section

variable (wording : Wording) (text : String)

/-- The report that a text asks for, or why there is none. -/
def scoreReport : Except ScoreError Report := do
  let request ← (decode ScoreRequest.reader text).mapError fun e => .unreadable (wording text e)
  request.run.run.value

/-- The verdict that a text asks for, or why there is none. -/
def measureAnswer : Except ScoreError MeasureAnswer := do
  let request ← (decode (MeasureRequest.record.read .text) text).mapError fun e =>
    .unreadable (wording text e)
  request.run.run.value

/-- The statistics that a text asks for, or why there are none. -/
def statisticsOf : Except ScoreError Statistics := do
  let score ← (Score.ofText text).mapError fun e => .unreadable (wording text e)
  return score.statistics

end

section

variable {α β : Type} {wording : Wording} {text : String} {read : Reader β} {run : β → Run α}
  {context : String} {toJson : α → Json}

theorem quiet_decode (read : Reader α) (text : String) : (Run.decode wording read text).run.Quiet :=
  fun _ => List.not_mem_nil

theorem mapError_bind_eq_ok {x : Except DecodeError α} {word : DecodeError → ScoreError}
    {f : α → Except ScoreError β} {b : β} :
    (x.mapError word >>= f) = .ok b ↔ ∃ a, x = .ok a ∧ f a = .ok b := by
  simp only [bind_eq_ok, mapError_eq_ok]

/-- **One request** that is read from its text and then run. -/
theorem exists_tells_of_decode {Shows : α → Json → Prop} (hquiet : ∀ b, (run b).run.Quiet)
    (h : ∀ b a, decode read text = .ok b → (run b).run.value = .ok a →
      (toJson a).Conveys (Shows a)) :
    ∃ document, Tells
      (answer context (do
        let b ← Run.decode wording read text
        return toJson (← run b)))
      ((decode read text).mapError (fun e => .unreadable (wording text e)) >>= fun b =>
        (run b).run.value) Shows document := by
  have hassoc : (do
      let b ← Run.decode wording read text
      return toJson (← run b) : Run Json) =
      (do return toJson (← Run.decode wording read text >>= run)) := by
    simp only [bind_assoc]
  have hvalue : (Run.decode wording read text >>= run).run.value =
      (decode read text).mapError (fun e => .unreadable (wording text e)) >>= fun b =>
        (run b).run.value := Run.value_bind _ _
  rw [hassoc, ← hvalue]
  refine exists_tells (Run.quiet_bind (quiet_decode _ _) hquiet) ?_
  intro a ha
  rw [hvalue] at ha
  obtain ⟨b, hb, hrun⟩ := mapError_bind_eq_ok.1 ha
  exact h b a hb hrun

end

theorem MeasureRequest.quiet_run (r : MeasureRequest) : r.run.run.Quiet := by
  apply Run.quiet_bind (quiet_resolveDefault _)
  intro signature
  apply Run.quiet_bind (Run.quiet_tell (MeasureResult.quiet_entries _))
  exact fun _ => Run.quiet_pure _

variable (wording : Wording) {text : String}

theorem MeasureResult.member?_id (r : MeasureResult) :
    r.toJson.reread.member? "measure_id" = some r.id.toJson := by
  rw [toJson, Json.reread_ofMembers]
  exact congrArg some (MeasureId.reread_toJson r.id)

theorem MeasureAnswer.member?_id (a : MeasureAnswer) {members : Members}
    (h : a.toJson = .object members) :
    (Json.object (("status", .string "success") :: members)).reread.member? "measure_id" =
      some a.id.toJson := by
  cases h
  rw [Json.reread_object]
  exact congrArg some (MeasureId.reread_toJson a.id)

/-! ## All answers -/

/-- The identifiers in a report are those of the measures in the request, in order. -/
def ShowsMeasures (text : String) (document : Json) : Prop :=
  ∃ members results, Json.parse? text = some (.object members) ∧
    document.member? "measure_results" = some (.array results) ∧
    results.map (Json.member? "measure_id") = (Members.measureIds members).map some

/-- The identifier in a verdict is that of the measure in the request. -/
def ShowsMeasure (text : String) (document : Json) : Prop :=
  ∃ v measure, Json.parse? text = some v ∧
    (MeasureRequest.record.members v).lookup "measure" = some measure ∧
    document.member? "measure_id" = some measure.measureId

theorem validateScore_tells (h : text.length < 2 ^ 63) : ∃ document,
    Tells (validateScore wording text) (scoreReport wording text) (fun _ => ShowsMeasures text)
      document := by
  refine exists_tells_of_decode (fun r => r.score.quiet_run r.settings) ?_
  intro request report hrequest hrun
  obtain ⟨members, hparse, hread⟩ := ScoreRequest.exists_of_decode hrequest
  have hweight := Json.weight_le_of_parse? hparse
  have hsmall : ∀ m ∈ members, m.2.weight < 2 ^ 63 := by
    intro m hm
    have hlt : m.2.weight < (Json.object members).weight :=
      Json.weight_lt_of_mem_children (List.mem_map_of_mem hm)
    omega
  have hlength : request.score.measures.length < 2 ^ 64 := by
    have hvoice := request.score.length_voice_le .right
    have hsize := Score.voiceSize_lt_of_read hread hsmall .right
    omega
  have hsendable := Score.sendable_of_ok hrun (Score.fits_of_read hread hsmall) hlength
  refine .intro rfl (Json.sendable_success (hsendable.mono (by decide)) (by simp)) ?_
  refine ⟨members, (report.results.map MeasureResult.toJson).map Json.reread, hparse, ?_, ?_⟩
  · rw [Json.reread_object, ← Json.reread_array]
    rfl
  · rw [← Score.ids_of_read hread]
    calc ((report.results.map MeasureResult.toJson).map Json.reread).map (Json.member? "measure_id")
        = report.results.map fun r => some r.id.toJson := by
          rw [List.map_map, List.map_map]
          exact List.map_congr_left fun r _ => r.member?_id
      _ = (report.results.map MeasureResult.id).map fun id => some id.toJson := by
          rw [List.map_map]
          rfl
      _ = (request.score.measures.map Measure.id).map fun id => some id.toJson := by
          rw [Score.ids_of_ok hrun]
      _ = (request.score.measures.map fun m => m.id.toJson).map some := by
          rw [List.map_map, List.map_map]
          rfl

theorem validateMeasure_tells (h : text.length < 2 ^ 63) : ∃ document,
    Tells (validateMeasure wording text) (measureAnswer wording text) (fun _ => ShowsMeasure text)
      document := by
  refine exists_tells_of_decode MeasureRequest.quiet_run ?_
  intro request verdict hrequest hrun
  obtain ⟨v, measure, hparse, hlookup, hlt, hread⟩ := MeasureRequest.exists_of_decode hrequest
  obtain ⟨signature, hresolves, rfl⟩ := MeasureRequest.run_eq_ok.1 hrun
  have hweight := Json.weight_le_of_parse? hparse
  have hfits : request.measure.Fits := Measure.fits_of_read hread (by omega)
  have hsendable := MeasureAnswer.sendable
    (hfits.judge hresolves.proper request.position request.settings)
  refine .intro rfl (Json.sendable_success (hsendable.mono (by decide)) (by simp)) ?_
  refine ⟨v, measure, hparse, hlookup, ?_⟩
  rw [MeasureAnswer.member?_id _ rfl, ← Measure.id_of_read hread]
  rfl

/-- The statistics in an answer, with every text as it was computed. -/
def ShowsStatistics (s : Statistics) (document : Json) : Prop :=
  ∃ shown, document.member? "statistics" = some shown ∧
    shown.member? "key" = some (.string s.key) ∧
    shown.member? "unique_pitches" = some (.array (s.pitches.map .string)) ∧
    shown.member? "duration_types" =
      some (.object (s.durations.map fun e => (e.1, .ofNat e.2)))

theorem scoreStatistics_tells (h : text.length < 2 ^ 63) : ∃ document,
    Tells (scoreStatistics wording text) (statisticsOf wording text) ShowsStatistics document := by
  have hanswer : scoreStatistics wording text = answer "score_statistics" (do
      let s ← Run.decode wording ((Score.record .text).read .text) text
      return .object [("statistics", (← (pure s.statistics : Run Statistics)).toJson)]) := by
    rw [scoreStatistics]
    simp only [pure_bind]
  rw [hanswer]
  refine exists_tells_of_decode (fun _ => Run.quiet_pure _) ?_
  intro s statistics hs hstatistics
  cases hstatistics
  obtain ⟨v, hparse, hread⟩ := decode_eq_ok.1 hs
  have hweight := Json.weight_le_of_parse? hparse
  have hsmall : ∀ m ∈ (Score.record .text).members v, m.2.weight < 2 ^ 63 := by
    intro m hm
    have hlt := Record.weight_lt hm
    omega
  have hsendable := Score.sendable_statistics
    (Score.voiceSize_lt_of_read (Record.read_members hread) hsmall)
  have hpayload : (Json.object [("statistics", s.statistics.toJson)]).Sendable 3 :=
    .object (by simp) (List.forall_mem_singleton.2 hsendable)
  refine .intro rfl (Json.sendable_success (hpayload.mono (by decide)) (by simp)) ?_
  refine ⟨s.statistics.toJson, ?_, rfl, rfl, rfl⟩
  rw [Json.reread_object]
  exact congrArg some (Score.reread_statistics s)

/-- What is said of a text that is no document is all that its answer says. -/
theorem checkStructure_answers (h : text.length < 2 ^ 63) :
    ∃ document, Answers (checkStructure wording text) document ∧
      ∀ e, decode Reader.document text = .error e → document = .failure (wording text e) := by
  cases hdecode : decode Reader.document text with
  | error e =>
    rw [checkStructure, hdecode]
    refine ⟨_, answers_failure [] "check_structure" (wording text e) ?_, fun e' he => ?_⟩
    · exact fun _ => List.not_mem_nil
    · cases he
      rfl
  | ok v =>
    obtain ⟨hreads, hplain⟩ := (ShapeReport.sendable_of_decode h hdecode).parse?_text
    rw [← checkStructure_of_decode wording hdecode] at hreads
    have hquiet : (checkStructure wording text).Quiet := by
      intro message
      rw [checkStructure, hdecode]
      change _ ∉ (ShapeReport.check v.canonical).log ++ []
      rw [List.append_nil]
      exact ShapeReport.quiet_check v.canonical message
    refine ⟨_, ⟨hreads, hplain, ShapeReport.exists_status _, hquiet⟩, fun e he => ?_⟩
    cases he

/--
**Every answer is faithful.** A request whose text fits into memory is answered by a text that is
read as a plain object with a status. The status is an error exactly if the request has no result,
and then the object says nothing but the text of the error, in which a malformed signature stands as
it was written, and what the reader says of a text that it cannot read. Otherwise the identifiers
are those of the measures in the request, and the statistics have the texts that were computed. No
answer is given up because it cannot be written.
-/
theorem answers_faithful (h : text.length < 2 ^ 63) :
    (∃ document, Tells (validateScore wording text) (scoreReport wording text)
      (fun _ => ShowsMeasures text) document) ∧
    (∃ document, Tells (validateMeasure wording text) (measureAnswer wording text)
      (fun _ => ShowsMeasure text) document) ∧
    (∃ document, Tells (scoreStatistics wording text) (statisticsOf wording text) ShowsStatistics
      document) ∧
    ∃ document, Answers (checkStructure wording text) document ∧
      ∀ e, decode Reader.document text = .error e → document = .failure (wording text e) :=
  ⟨validateScore_tells wording h, validateMeasure_tells wording h,
    scoreStatistics_tells wording h, checkStructure_answers wording h⟩

/-- A signature with a quote, a backslash, a line break and a letter that is not of Ascii. -/
def quotedText : String := "\x7b\"time_signature\":\"3\\\"\\\\\\n\u00e9/4\"\x7d"

set_option maxRecDepth 20000 in
theorem parse_quotedText :
    Json.parse? quotedText = some (.object [("time_signature", .string "3\"\\\n\u00e9/4")]) := by
  rfl

/-- A text that is no document: a name has to be a text. -/
def unquotedText : String := "\x7bnot json"

/--
The signature is quoted back as it was written. The text that is no document is answered by the
words of the reader, which has come to its first name.
-/
theorem answers_faithful_of_quotes :
    let wording : Wording := fun _ _ => "key must be a string at line 1 column 2"
    quotedText.length < 2 ^ 63 ∧ unquotedText.length < 2 ^ 63 ∧
      Json.parse? (validateScore wording quotedText).value =
        some (.object [("status", .string "error"), ("error_message", .string
          "Malformed time signature '3\"\\\n\u00e9/4': numerator is not an integer")]) ∧
      Json.parse? (validateScore wording unquotedText).value =
        some (.object [("status", .string "error"), ("error_message", .string
          "Invalid music data: key must be a string at line 1 column 2")]) := by
  intro wording
  have hquoted : quotedText.length < 2 ^ 63 := by decide
  have hunquoted : unquotedText.length < 2 ^ 63 := by decide
  have hsignature : scoreReport wording quotedText =
      .error (.malformedSignature ⟨"3\"\\\n\u00e9/4", .notInteger .numerator⟩) := by
    rw [scoreReport, decode, parse_quotedText]
    rfl
  have hdetail : scoreReport wording unquotedText =
      .error (.unreadable "key must be a string at line 1 column 2") := rfl
  obtain ⟨⟨_, hanswer⟩, -⟩ := answers_faithful wording hquoted
  obtain ⟨⟨_, hanswer'⟩, -⟩ := answers_faithful wording hunquoted
  obtain ⟨_, ⟨⟩, rfl⟩ := hanswer.fails _ hsignature
  obtain ⟨_, ⟨⟩, rfl⟩ := hanswer'.fails _ hdetail
  exact ⟨hquoted, hunquoted, hanswer.reads, hanswer'.reads⟩

end MeterCheck
