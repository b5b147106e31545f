import MeterCheck.Proofs.Service.Decode
import MeterCheck.Proofs.Service.SingleMeasure
import MeterCheck.Service.Answer

/-!
# The arithmetic of a request

* `Judged`: the voices that the text of a request leads to judge, with their results;
* `Judged.spec`: what is read makes such a voice well formed;
* `Judged.exact_iff`: exactly when its result is that of rational arithmetic.
-/

namespace MeterCheck

/-- A voice in the request that a text holds, and the result for it in the answer. -/
inductive Judged (text : String) : Trial → HandResult → Prop where
  | score {request : ScoreRequest} {report : Report} {i : Nat} {m : Measure}
      {result : MeasureResult} (hand : Hand)
      (reads : decode ScoreRequest.reader text = .ok request)
      (runs : request.run.run.value = .ok report)
      (measure : request.score.measures[i]? = some m)
      (entry : report.results[i]? = some result) :
      Judged text ⟨m.voice hand, result.signature, result.position, request.settings⟩
        (result.hands.get hand)
  | measure {request : MeasureRequest} {a : MeasureAnswer} (hand : Hand)
      (reads : decode (MeasureRequest.record.read .text) text = .ok request)
      (runs : request.run.run.value = .ok a) :
      Judged text ⟨request.measure.voice hand, a.signature, request.position, request.settings⟩
        (a.hands.get hand)

namespace Measure

theorem hands_judge (m : Measure) (s : TimeSignature) (position : Position)
    (settings : Settings) (hand : Hand) :
    (m.judge s position settings).hands.get hand =
      (Trial.mk (m.voice hand) s position settings).verdict := by
  cases hand <;> rfl

end Measure

namespace Judged

variable {text : String} {t : Trial} {r : HandResult}

theorem spec (h : Judged text t r) : t.WellFormed ∧ r = t.verdict := by
  cases h with
  | score hand reads runs measure entry =>
    rename_i request report i m result
    obtain ⟨hmeasures, hleast⟩ := decode_ok ScoreRequest.reader_ensures reads
    obtain ⟨_, signature, _, hresolves, hat⟩ := Score.result_of_ok runs measure
    rw [hat] at entry
    cases entry
    exact ⟨⟨hmeasures m (List.mem_of_getElem? measure) hand, hresolves.proper, hleast⟩,
      m.hands_judge _ _ _ hand⟩
  | measure hand reads runs =>
    rename_i request a
    obtain ⟨hmeasure, hleast⟩ := decode_ok MeasureRequest.record_ensures reads
    obtain ⟨signature, hresolves, rfl⟩ := MeasureRequest.run_eq_ok.1 runs
    exact ⟨⟨hmeasure hand, hresolves.proper, hleast⟩, request.measure.hands_judge _ _ _ hand⟩

/--
**When an answer is exact.** The result for a voice is computed without an overflow and without a
division by zero, and is that of rational arithmetic, if and only if its numbers fit and the least
length of the settings does not clash with them.
-/
theorem exact_iff (h : Judged text t r) :
    Checked.verdict t = some r ∧ t.Exact r ↔ t.Fits ∧ ¬ t.Misjudged := by
  obtain ⟨hformed, rfl⟩ := h.spec
  exact Trial.verdict_exact_iff hformed

/-- An eighth note in a first measure, with a least length of minus one half. -/
def clashing : Trial :=
  ⟨[⟨[], .piece (.name "eighth")⟩], .common, .first, ⟨.strict, ⟨1, -2⟩⟩⟩

theorem clashing_actual : clashing.actual = 1 / 2 := by
  have hlength : lengthOf "eighth" = 1 / 2 := by decide +kernel
  simp [clashing, Trial.actual, Duration.length, Piece.length, hlength]

theorem clashing_expected : clashing.expected = 4 := by
  norm_num [clashing, Trial.expected, TimeSignature.common]

theorem clashing_misjudged : clashing.Misjudged := by
  rw [Trial.Misjudged, Trial.UsesLeast, clashing_actual, clashing_expected]
  refine ⟨⟨rfl, by norm_num⟩, by norm_num, Or.inr ?_⟩
  refine ⟨by decide, by decide, ?_⟩
  decide +kernel

def clashingText : String :=
  "\x7b\"measure\":\x7b\"right_hand\":[\x7b\"duration\":\"eighth\"\x7d]\x7d,\"position\":\"first\","
    ++ "\"settings\":\x7b\"minimum_partial_beats\":[1,-2]\x7d\x7d"

def clashingRequest : MeasureRequest :=
  ⟨⟨.unknown, none, ⟨clashing.events, []⟩⟩, none, .first, clashing.settings⟩

set_option maxRecDepth 20000 in
theorem parse_clashingText : Json.parse? clashingText = some (.object
    [("measure", .object [("right_hand", .array [.object [("duration", .string "eighth")]])]),
     ("position", .string "first"),
     ("settings", .object [("minimum_partial_beats", .array [.int 1, .int (-2)])])]) := by
  rfl

theorem decode_clashingText :
    decode (MeasureRequest.record.read .text) clashingText = .ok clashingRequest := by
  rw [decode, parse_clashingText]
  rfl

/-- The eighth note is longer than the least length and is still judged to be too short. -/
theorem exact_iff_of_clash : ∃ r, Judged clashingText clashing r ∧ r.valid = false ∧
    clashing.Acceptable ∧ ¬ (Checked.verdict clashing = some r ∧ clashing.Exact r) := by
  have hruns : clashingRequest.run.run.value =
      .ok (.ofResult (clashingRequest.measure.judge .common .first clashing.settings)) :=
    MeasureRequest.run_eq_ok.2 ⟨.common, rfl, rfl⟩
  have hjudged : Judged clashingText clashing clashing.verdict :=
    .measure .right decode_clashingText hruns
  have hvalid : clashing.verdict.valid = false := by decide +kernel
  refine ⟨_, hjudged, hvalid, ?_, fun h => ((exact_iff hjudged).1 h).2 clashing_misjudged⟩
  rw [Trial.Acceptable, clashing_actual, clashing_expected]
  refine Or.inr ⟨rfl, ?_, by norm_num⟩
  norm_num [clashing, Trial.least, Beats.toRat]

end Judged

end MeterCheck
