import MeterCheck.Proofs.Score.Agree
import MeterCheck.Proofs.Service.Decode
import MeterCheck.Service.Answer

/-!
# One score for all requests

A document without settings is the same score whether it is read as a text, as a value, or with the
members set aside for a request.

* `Run.decode_eq_pure`, `Run.decode_eq_throw`: a run that starts with reading a request;
* `Score.readers_agree`: all readers find one score, and all answers are about it.
-/

namespace MeterCheck

namespace Run

variable {α : Type} {wording : Wording} {read : Reader α} {text : String}

theorem decode_eq_pure {a : α} (h : MeterCheck.decode read text = .ok a) :
    decode wording read text = pure a := by
  rw [decode, h]
  rfl

theorem decode_eq_throw {e : DecodeError} (h : MeterCheck.decode read text = .error e) :
    decode wording read text = throw (.unreadable (wording text e)) := by
  rw [decode, h]
  rfl

end Run

namespace Score

variable {text : String} {members : Members}

/--
**All readers find one score.** A sound document that repeats no name and has no settings is read as
one score from its text, from its value and for a request, which then has the default settings, or
it is read by none of the three. Its report and its statistics are about that score, however the
readers of the two requests word what they cannot read.
-/
theorem readers_agree (wording wording' : Wording)
    (hparse : Json.parse? text = some (.object members)) (hplain : (Json.object members).Plain)
    (hsettings : "settings" ∉ members.map Prod.fst) :
    (∀ s, ofText text = .ok s ↔ ofValue (.object members) = .ok s) ∧
    (∀ r, decode ScoreRequest.reader text = .ok r ↔
      ofText text = .ok r.score ∧ r.settings = .default) ∧
    (∀ s, ofText text = .ok s →
      validateScore wording text =
        answer "validate_score" (do return (← s.run .default).toJson) ∧
      scoreStatistics wording' text =
        answer "score_statistics" (return .object [("statistics", s.statistics.toJson)])) ∧
    ((∀ s, ofText text ≠ .ok s) → ∃ e e',
      decode ScoreRequest.reader text = .error e ∧ ofText text = .error e' ∧
      validateScore wording text =
        answer "validate_score" (throw (.unreadable (wording text e))) ∧
      scoreStatistics wording' text =
        answer "score_statistics" (throw (.unreadable (wording' text e')))) := by
  have hdecode {α : Type} (read : Reader α) (a : α) :
      decode read text = .ok a ↔ read (.object members) = .ok a := by
    rw [decode_eq_ok, hparse]
    simp
  have hvalue (s : Score) : ofText text = .ok s ↔ ofValue (.object members) = .ok s :=
    (hdecode _ s).trans (record_agrees .text .value _ hplain s)
  have hrequest (r : ScoreRequest) : decode ScoreRequest.reader text = .ok r ↔
      ofText text = .ok r.score ∧ r.settings = .default := by
    have hall : ∀ m ∈ members, m.1 = "settings" ∨ m.2.sound = true := fun m hm =>
      .inr (hplain.of_member hm).sound
    have hfields : (record .buffer).read .buffer (.object members) = .ok r.score ↔
        (record .buffer).fields.read members = .ok r.score := mapError_eq_ok
    have hscore := record_agrees .buffer .value _ hplain r.score
    have hdefault : ScoreRequest.settingsField.read members = .ok r.settings ↔
        r.settings = .default := by
      rw [ScoreRequest.settingsField, Fields.withDefault, Fields.read_eq_ok_of_not_mem hsettings,
        Except.ok.injEq, eq_comm]
    rw [hdecode, ScoreRequest.reader_eq_ok, ← hfields, hscore, hdefault, hvalue]
    exact ⟨fun h => ⟨h.2.2, h.2.1⟩, fun h => ⟨hall, h.2, h.1⟩⟩
  refine ⟨hvalue, hrequest, ?_, ?_⟩
  · intro s hs
    have hrun := (hrequest ⟨s, .default⟩).2 ⟨hs, rfl⟩
    constructor
    · rw [validateScore, Run.decode_eq_pure hrun]
      rfl
    · rw [scoreStatistics, Run.decode_eq_pure hs]
      rfl
  · intro hnone
    cases hs : ofText text with
    | ok s => exact (hnone s hs).elim
    | error e' =>
      cases hr : decode ScoreRequest.reader text with
      | ok r => exact (hnone r.score ((hrequest r).1 hr).1).elim
      | error e =>
        refine ⟨e, e', rfl, rfl, ?_, ?_⟩
        · rw [validateScore, Run.decode_eq_throw hr]
          rfl
        · rw [scoreStatistics, Run.decode_eq_throw hs]
          rfl

/-- Members in another order, one that no field is read from, and a tempo with a text of its own. -/
def shuffledText : String :=
  "\x7b\"tempo\":\x7b\"unit\":null,\"beats\":[90]\x7d,\"print\":true,\"measures\":["
    ++ "\x7b\"left_hand\":[\x7b\"duration\":\"half\",\"notes\":[\"C4\"]\x7d],\"id\":7\x7d],"
    ++ "\"key\":\"D\"\x7d"

def shuffledMembers : Members :=
  [("tempo", .object [("unit", .null), ("beats", .array [.int 90])]), ("print", .bool true),
   ("measures", .array [.object
     [("left_hand", .array
        [.object [("duration", .string "half"), ("notes", .array [.string "C4"])]]),
      ("id", .int 7)]]),
   ("key", .string "D")]

set_option maxRecDepth 20000 in
theorem parse_shuffledText : Json.parse? shuffledText = some (.object shuffledMembers) := by
  rfl

theorem plain_shuffledMembers : (Json.object shuffledMembers).Plain :=
  ⟨by decide, by simp [shuffledMembers]⟩

/-- The tempo is kept in the order of its names. The text is read, so that no words are needed. -/
theorem readers_agree_of_shuffled :
    let silent : Wording := fun _ _ => ""
    let event : Event := ⟨["C4"], .piece (.name "half")⟩
    let tempo : Json := .object [("beats", .array [.int 90]), ("unit", .null)]
    let s : Score := ⟨none, none, some "D", some tempo, none, [⟨.number 7, none, ⟨[], [event]⟩⟩]⟩
    ofText shuffledText = .ok s ∧ ofValue (.object shuffledMembers) = .ok s ∧
      decode ScoreRequest.reader shuffledText = .ok ⟨s, .default⟩ ∧
      validateScore silent shuffledText =
        answer "validate_score" (do return (← s.run .default).toJson) := by
  intro silent event tempo s
  obtain ⟨hvalue, hrequest, hanswers, -⟩ :=
    readers_agree silent silent parse_shuffledText plain_shuffledMembers (by decide)
  have hread : ofText shuffledText = .ok s := by
    rw [ofText, decode, parse_shuffledText]
    rfl
  exact ⟨hread, (hvalue s).1 hread, (hrequest _).2 ⟨hread, rfl⟩, (hanswers s hread).1⟩

end Score

end MeterCheck
