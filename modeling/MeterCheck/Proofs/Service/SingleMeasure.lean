import MeterCheck.Proofs.TimeSignature.Resolve
import MeterCheck.Service.Request

/-!
# A measure on its own

A measure taken out of a score, with the signature its result names and its position in the
score, is answered as it was judged in the score.

* `InForce.of_own`: a measure's own signature is the one in force there;
* `MeasureRequest.run_eq_ok`: what a request about one measure computes;
* `MeasureRequest.run_of_score`: it agrees with the report on the score.
-/

namespace MeterCheck

theorem InForce.of_own {default : Option SignatureSpec} {ms : List Measure} {i : Nat}
    {spec : Option SignatureSpec} {m : Measure} {own : SignatureSpec}
    (h : InForce default ms i spec) (hm : ms[i]? = some m) (hown : m.signature = some own) :
    spec = some own := by
  refine h.unique (.own (Nat.le_refl i) hm hown ?_)
  intro j _ hlt hle
  omega

namespace MeasureRequest

theorem run_eq_ok {r : MeasureRequest} {a : MeasureAnswer} :
    r.run.run.value = .ok a ↔ ∃ signature,
      Resolves (r.measure.signature.or r.signature) signature ∧
      a = .ofResult (r.measure.judge signature r.position r.settings) := by
  rw [run, Run.value_bind_eq_ok]
  constructor
  · rintro ⟨signature, hsignature, h⟩
    obtain ⟨_, _, h⟩ := Run.value_bind_eq_ok.1 h
    exact ⟨signature, resolveDefault_eq_ok.1 hsignature, (Except.ok.inj h).symm⟩
  · rintro ⟨signature, hsignature, rfl⟩
    exact ⟨signature, resolveDefault_eq_ok.2 hsignature, rfl⟩

/--
**Both paths agree.** Each measure of a score that has a report is answered on its own, under the
signature that the report gives it, as it was judged in the report.
-/
theorem run_of_score {request : ScoreRequest} {report : Report}
    (h : request.run.run.value = .ok report) (i : Nat) (m : Measure)
    (hm : request.score.measures[i]? = some m) :
    ∃ result answer, report.results[i]? = some result ∧
      (run ⟨m, some (.ofSignature result.signature),
        request.settings.positionOf i request.score.measures.length,
        request.settings⟩).run.value = .ok answer ∧
      answer = .ofResult result ∧ answer.valid = result.bothValid ∧
      ∀ hand, answer.hands.get hand = result.hands.get hand := by
  obtain ⟨spec, signature, hforce, hresolves, hresult⟩ := Score.result_of_ok h hm
  have hsame : Resolves (m.signature.or (some (.ofSignature signature))) signature := by
    cases hown : m.signature with
    | some own =>
      cases hforce.of_own hm hown
      exact hresolves
    | none => exact SignatureSpec.resolve_ofSignature hresolves.proper
  exact ⟨_, _, hresult, run_eq_ok.2 ⟨signature, hsame, rfl⟩, rfl, rfl, fun _ => rfl⟩

/-- A measure that has its signature from the measure before it. -/
theorem run_of_score_carried :
    let change : Measure := .empty (.number 1) (some (.pair 3 4))
    let partly : Measure :=
      ⟨.number 2, none, ⟨[⟨["C4"], .piece (.name "half")⟩], [⟨[], .piece (.product 3 "quarter")⟩]⟩⟩
    let request : ScoreRequest := ⟨.ofMeasures [change, partly], ⟨.pickup, ⟨1, 1⟩⟩⟩
    ∃ report result answer, request.run.run.value = .ok report ∧
      report.results[1]? = some result ∧ result.signature = ⟨3, 4⟩ ∧
      (run ⟨partly, some (.pair 3 4), .last, request.settings⟩).run.value = .ok answer ∧
      answer = .ofResult result ∧ answer.valid = result.bothValid ∧
      ∀ hand, answer.hands.get hand = result.hands.get hand := by
  intro change partly request
  obtain ⟨report, hreport⟩ : ∃ report, request.run.run.value = .ok report := ⟨_, rfl⟩
  obtain ⟨result, answer, hresult, hanswer, h⟩ := run_of_score hreport 1 partly rfl
  have hsignature : result.signature = ⟨3, 4⟩ := by
    cases hreport
    cases hresult
    rfl
  rw [hsignature] at hanswer
  exact ⟨report, result, answer, hreport, hresult, hsignature, hanswer, h⟩

end MeasureRequest

end MeterCheck
