import MeterCheck.Proofs.Report.Carry
import Mathlib.Data.List.Forall2

/-!
# What the durations of a score reach

* `Score.validate_eq`: a run of a score without its log;
* `Score.Revises`: a change that may only give other lengths to durations;
* `MeasureResult.Agrees`: results that differ at most in lengths and in what is judged from them;
* `Score.Revises.error_iff`, `Score.Revises.exists_report`: such a change makes and mends no error,
  and every measure is judged under the same signature as before.
-/

namespace MeterCheck

/-! ## Runs -/

/-- Only the signatures and the lack of measures can fail. -/
theorem Score.validate_eq (s : Score) (settings : Settings) :
    s.validate settings = (resolveDefault s.signature).run.value >>= fun signature =>
      if s.measures.isEmpty then .error .noMeasures
      else (carry signature s.measures).run.value.map fun signatures =>
        .ofResults signature (judgeAll settings s.measures signatures) := by
  rw [validate, run, Run.value_bind]
  congr 1
  funext signature
  cases s.measures.isEmpty with
  | true => rfl
  | false =>
    simp only [Bool.false_eq_true, ↓reduceIte, Run.value_bind]
    cases (carry signature s.measures).run.value <;> rfl

/-! ## Voices -/

/-- What a voice is judged by. -/
def values (events : List Event) : List Value := events.map (·.duration.value)

/-- Which of its events are known. -/
def marks (events : List Event) : List Bool := events.map (·.duration.value.recognized)

theorem tally_eq (events : List Event) :
    tally events = (values events).zipIdx.foldl (fun t (v, i) => t.add i v) .empty := by
  rw [values, List.zipIdx_map, List.foldl_map]
  rfl

theorem unrecognized_foldl (events : List (Event × Nat)) (t : Tally) :
    (events.foldl (fun t (e, i) => t.add i e.duration.value) t).unrecognized =
      t.unrecognized ++
        events.filterMap fun (e, i) => if e.duration.value.recognized then none else some i := by
  induction events generalizing t with
  | nil => simp
  | cons e events ih =>
    obtain ⟨e, i⟩ := e
    rw [List.foldl_cons, ih]
    cases h : e.duration.value.recognized <;> simp [Tally.add, h]

theorem unrecognized_tally (events : List Event) : (tally events).unrecognized =
    (marks events).zipIdx.filterMap fun (b, i) => if b then none else some i := by
  rw [tally, unrecognized_foldl, marks, List.zipIdx_map, List.filterMap_map]
  rfl

/-! ## Measures -/

/-- A measure whose durations may have other lengths. -/
structure Measure.Revises (m m' : Measure) : Prop where
  id : m'.id = m.id
  signature : m'.signature = m.signature
  marks : ∀ hand, marks (m'.voice hand) = marks (m.voice hand)

/-- A result in which only lengths, and what is judged from them, may be different. -/
structure MeasureResult.Agrees (x y : MeasureResult) : Prop where
  id : y.id = x.id
  signature : y.signature = x.signature
  expected : y.expected = x.expected
  position : y.position = x.position
  unrecognized : ∀ hand, (y.hands.get hand).unrecognized = (x.hands.get hand).unrecognized

namespace Measure.Revises

variable {m m' : Measure}

theorem agrees (h : m.Revises m') (signature : TimeSignature) (position : Position)
    (settings : Settings) :
    (m.judge signature position settings).Agrees (m'.judge signature position settings) where
  id := h.id
  signature := rfl
  expected := rfl
  position := rfl
  unrecognized hand := by
    simp only [Measure.judge, Hands.get_map, judgeVoice, unrecognized_tally]
    rw [show m'.voices.get hand = m'.voice hand from rfl, h.marks hand]
    rfl

theorem judge_eq (h : m.Revises m')
    (hvalues : ∀ hand, values (m'.voice hand) = values (m.voice hand)) (signature : TimeSignature)
    (position : Position) (settings : Settings) :
    m'.judge signature position settings = m.judge signature position settings := by
  have htally (hand : Hand) : tally (m'.voice hand) = tally (m.voice hand) := by
    rw [tally_eq, tally_eq, hvalues hand]
  have hright : tally m'.voices.right = tally m.voices.right := htally .right
  have hleft : tally m'.voices.left = tally m.voices.left := htally .left
  simp only [Measure.judge, Hands.map, judgeVoice, h.id, hright, hleft]

end Measure.Revises

theorem carry_eq_of_revises {ms ms' : List Measure} (h : List.Forall₂ Measure.Revises ms ms')
    (current : TimeSignature) : carry current ms' = carry current ms :=
  carry_congr (h.imp fun _ _ hm => ⟨hm.id, congrArg (Option.map _) hm.signature⟩) current

/-! ## Scores -/

namespace Score

/-- A score whose durations may have other lengths. -/
structure Revises (s s' : Score) : Prop where
  signature : s'.signature = s.signature
  measures : List.Forall₂ Measure.Revises s.measures s'.measures

variable {s s' : Score} {settings : Settings} {r : Report}

theorem Revises.isEmpty_eq (h : s.Revises s') : s'.measures.isEmpty = s.measures.isEmpty := by
  rw [Bool.eq_iff_iff, List.isEmpty_iff_length_eq_zero, List.isEmpty_iff_length_eq_zero,
    h.measures.length_eq]

theorem Revises.validate_eq (h : s.Revises s') (settings : Settings) :
    s'.validate settings = (resolveDefault s.signature).run.value >>= fun signature =>
      if s.measures.isEmpty then .error .noMeasures
      else (carry signature s.measures).run.value.map fun signatures =>
        .ofResults signature (judgeAll settings s'.measures signatures) := by
  simp only [Score.validate_eq, h.signature, h.isEmpty_eq, carry_eq_of_revises h.measures]

/-- Lengths make no error. -/
theorem Revises.error_iff (h : s.Revises s') {e : ScoreError} :
    s'.validate settings = .error e ↔ s.validate settings = .error e := by
  rw [h.validate_eq, Score.validate_eq]
  cases (resolveDefault s.signature).run.value with
  | error e' => simp only [bind, Except.bind]
  | ok signature =>
    simp only [bind, Except.bind]
    split
    · rfl
    · cases (carry signature s.measures).run.value with
      | error e' => simp only [Except.map]
      | ok signatures => simp only [Except.map, reduceCtorEq]

/-- Each measure is judged under the same signature and at the same position as before. -/
theorem Revises.exists_report (h : s.Revises s') (hr : s.validate settings = .ok r) :
    ∃ r', s'.validate settings = .ok r' ∧ r'.signature = r.signature ∧ r'.total = r.total ∧
      ∀ (i : Nat) (m m' : Measure), s.measures[i]? = some m → s'.measures[i]? = some m' →
        ∃ own position, r.results[i]? = some (m.judge own position settings) ∧
          r'.results[i]? = some (m'.judge own position settings) := by
  obtain ⟨signature, signatures, hdefault, hne, hcarry, rfl⟩ := run_eq_ok.1 hr
  have hlength := h.measures.length_eq
  have hsignatures := (carry_ok hdefault hcarry).1
  have hne' : s'.measures ≠ [] := by
    rw [← List.length_pos_iff, ← hlength]
    exact List.length_pos_iff.2 hne
  refine ⟨.ofResults signature (judgeAll settings s'.measures signatures),
    run_eq_ok.2 ⟨signature, signatures, h.signature ▸ hdefault, hne',
      carry_eq_of_revises h.measures signature ▸ hcarry, rfl⟩, rfl, ?_, ?_⟩
  · simp only [Report.ofResults, length_judgeAll hsignatures,
      length_judgeAll (hsignatures.trans hlength), hlength]
  · intro i m m' hm hm'
    obtain ⟨hi, -⟩ := List.getElem?_eq_some_iff.1 hm
    obtain ⟨own, hown⟩ : ∃ own, signatures[i]? = some own :=
      ⟨_, List.getElem?_eq_getElem (hsignatures ▸ hi)⟩
    refine ⟨own, settings.positionOf i s.measures.length, getElem?_judgeAll hm hown, ?_⟩
    rw [hlength]
    exact getElem?_judgeAll hm' hown

/-- The report is the same if every duration has the value it had. -/
theorem Revises.validate_eq_of_values (h : s.Revises s')
    (hvalues : ∀ (i : Nat) (m m' : Measure), s.measures[i]? = some m →
      s'.measures[i]? = some m' → ∀ hand, values (m'.voice hand) = values (m.voice hand))
    (settings : Settings) : s'.validate settings = s.validate settings := by
  have hjudge : List.Forall₂ (fun m m' : Measure => m'.judge = m.judge) s.measures s'.measures := by
    obtain ⟨hlength, hrevises⟩ := List.forall₂_iff_get.1 h.measures
    refine List.forall₂_iff_get.2 ⟨hlength, fun i hi hi' => ?_⟩
    funext signature position settings
    exact (hrevises i hi hi').judge_eq
      (hvalues i _ _ (List.getElem?_eq_getElem hi) (List.getElem?_eq_getElem hi')) _ _ _
  rw [h.validate_eq, Score.validate_eq]
  simp only [judgeAll_congr hjudge]

end Score

end MeterCheck
