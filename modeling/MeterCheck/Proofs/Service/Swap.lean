import MeterCheck.Proofs.Report.Revise
import MeterCheck.Proofs.Table
import MeterCheck.Score.Statistics
import MeterCheck.Service.Request

/-!
# Exchanging the hands

Nothing is judged or counted otherwise for one hand than for the other.

* `Score.swap`, `Report.swap`, `MeasureRequest.swap`, `MeasureAnswer.swap`, `Statistics.swap`: what
  belongs to one hand is given to the other;
* `deviations_swap`: the lines about deviations are those of the other hand, in another order;
* `hands_symmetric`: whatever is computed from a score with exchanged hands is computed from the
  score and then exchanged.
-/

namespace MeterCheck

def Hand.other : Hand → Hand
  | right => left
  | left => right

@[simp]
theorem Hands.get_swap {α : Type} (hs : Hands α) (hand : Hand) :
    hs.swap.get hand = hs.get hand.other := by
  cases hand <;> rfl

theorem Hands.swap_ofFn {α : Type} (f : Hand → α) :
    (Hands.ofFn f).swap = .ofFn fun hand => f hand.other := rfl

def Measure.swap (m : Measure) : Measure := { m with voices := m.voices.swap }

def Score.swap (s : Score) : Score := { s with measures := s.measures.map Measure.swap }

def MeasureResult.swap (x : MeasureResult) : MeasureResult := { x with hands := x.hands.swap }

def Report.swap (r : Report) : Report :=
  { r with
    results := r.results.map MeasureResult.swap
    validVoices := r.validVoices.swap
    meanErrors := r.meanErrors.swap }

def Deviation.swap (d : Deviation) : Deviation := { d with hand := d.hand.other }

def MeasureRequest.swap (r : MeasureRequest) : MeasureRequest :=
  { r with measure := r.measure.swap }

def MeasureAnswer.swap (a : MeasureAnswer) : MeasureAnswer := { a with hands := a.hands.swap }

def Statistics.swap (s : Statistics) : Statistics := { s with events := s.events.swap }

/-! ## Verdicts -/

theorem Measure.judge_swap (m : Measure) (signature : TimeSignature) (position : Position)
    (settings : Settings) :
    m.swap.judge signature position settings = (m.judge signature position settings).swap := by
  simp only [Measure.judge, Measure.swap, MeasureResult.swap, Hands.map, Hands.swap, Bool.and_comm]

theorem judgeAll_swap (settings : Settings) (ms : List Measure) (signatures : List TimeSignature) :
    judgeAll settings (ms.map Measure.swap) signatures =
      (judgeAll settings ms signatures).map MeasureResult.swap := by
  apply List.ext_getElem
  · simp [judgeAll]
  · intro i _ _
    simp only [judgeAll, List.getElem_map, List.getElem_mapIdx, List.getElem_zip, List.length_map,
      Measure.judge_swap]

/-- Signatures belong to no hand. -/
theorem carry_swap (current : TimeSignature) (ms : List Measure) :
    carry current (ms.map Measure.swap) = carry current ms := by
  induction ms generalizing current with
  | nil => rfl
  | cons m ms ih => simp only [List.map_cons, carry, Measure.swap, ih]

/-! ## Reports -/

theorem Report.ofResults_swap (signature : TimeSignature) (results : List MeasureResult) :
    ofResults signature (results.map MeasureResult.swap) = (ofResults signature results).swap := by
  have hcount (hand : Hand) : (results.map MeasureResult.swap).countP
      (fun r => (r.hands.get hand).valid) =
      results.countP fun r => (r.hands.get hand.other).valid := by
    rw [List.countP_map]
    simp only [Function.comp_def, MeasureResult.swap, Hands.get_swap]
  have hboth : (results.map MeasureResult.swap).countP (fun r => r.bothValid) =
      results.countP fun r => r.bothValid := List.countP_map
  have herrors (hand : Hand) : (results.map MeasureResult.swap).map
      (fun r => (r.hands.get hand).error.toDouble) =
      results.map fun r => (r.hands.get hand.other).error.toDouble := by
    rw [List.map_map]
    simp only [Function.comp_def, MeasureResult.swap, Hands.get_swap]
  simp only [ofResults, Report.swap, Hands.swap_ofFn, List.length_map, hboth, hcount, herrors]

theorem MeasureResult.deviation?_swap (x : MeasureResult) (hand : Hand) :
    x.swap.deviation? hand = (x.deviation? hand.other).map Deviation.swap := by
  unfold deviation?
  simp only [MeasureResult.swap, Hands.get_swap]
  split
  · rfl
  · cases hand <;> rfl

/-- The two lines about a result, if there are so many, change places. -/
theorem MeasureResult.deviations_swap (x : MeasureResult) :
    (Hand.both.filterMap x.swap.deviation?).Perm
      ((Hand.both.filterMap x.deviation?).map Deviation.swap) := by
  have hreversed : Hand.both.filterMap (fun hand => (x.deviation? hand.other).map Deviation.swap) =
      (Hand.both.reverse.filterMap x.deviation?).map Deviation.swap := by
    rw [List.map_filterMap]
    rfl
  rw [funext x.deviation?_swap, hreversed]
  exact (Hand.both.reverse_perm.filterMap _).map _

theorem deviations_swap (results : List MeasureResult) :
    (deviations (results.map MeasureResult.swap)).Perm
      ((deviations results).map Deviation.swap) := by
  have hinvalid : (results.map MeasureResult.swap).filter (! ·.bothValid) =
      (results.filter (! ·.bothValid)).map MeasureResult.swap := List.filter_map
  rw [deviations, deviations, hinvalid, List.flatMap_map, List.map_flatMap]
  apply List.Perm.flatMap_left
  intro x _
  exact x.deviations_swap

theorem Report.length_describeInvalid_swap (r : Report) :
    r.swap.describeInvalid.length = r.describeInvalid.length := by
  have hperm : r.swap.deviations.Perm (r.deviations.map Deviation.swap) :=
    MeterCheck.deviations_swap r.results
  rw [describeInvalid, describeInvalid, List.length_map, List.length_map, hperm.length_eq,
    List.length_map]

theorem Score.validate_swap (s : Score) (settings : Settings) :
    s.swap.validate settings = (s.validate settings).map Report.swap := by
  have hempty : s.swap.measures.isEmpty = s.measures.isEmpty := List.isEmpty_map
  rw [validate_eq, validate_eq, hempty]
  change ((resolveDefault s.signature).run.value >>= fun signature => _) = _
  cases (resolveDefault s.signature).run.value with
  | error e => rfl
  | ok signature =>
    simp only [bind, Except.bind]
    split
    · rfl
    · rw [swap, carry_swap]
      cases (carry signature s.measures).run.value with
      | error e => rfl
      | ok signatures =>
        simp only [Except.map, judgeAll_swap, Report.ofResults_swap]

/-! ## Requests -/

theorem MeasureRequest.run_swap (r : MeasureRequest) :
    r.swap.run.run.value = r.run.run.value.map MeasureAnswer.swap := by
  have hrun (r : MeasureRequest) : r.run.run.value =
      (resolveDefault (r.measure.signature.or r.signature)).run.value.map fun signature =>
        .ofResult (r.measure.judge signature r.position r.settings) := by
    rw [run, Run.value_bind]
    rfl
  rw [hrun, hrun]
  change (resolveDefault (r.measure.signature.or r.signature)).run.value.map _ = _
  cases (resolveDefault (r.measure.signature.or r.signature)).run.value with
  | error e => rfl
  | ok signature =>
    simp only [Except.map, swap, Measure.judge_swap]
    rfl

/-! ## Statistics -/

theorem Score.events_swap (s : Score) : s.swap.events.Perm s.events := by
  rw [events, swap, List.flatMap_map]
  apply List.Perm.flatMap_left
  intro m _
  exact List.perm_append_comm

theorem Score.statistics_swap (s : Score) : s.swap.statistics = s.statistics.swap := by
  have hvoice (hand : Hand) : s.swap.measures.flatMap (fun m => m.voice hand) =
      s.measures.flatMap fun m => m.voice hand.other := by
    rw [swap, List.flatMap_map]
    cases hand <;> rfl
  have hpitches : Table.names (s.swap.events.flatMap Event.pitches) =
      Table.names (s.events.flatMap Event.pitches) :=
    Table.names_perm (s.events_swap.flatMap_right Event.pitches)
  have hdurations : Table.counts (s.swap.events.map fun e => e.duration.bucket) =
      Table.counts (s.events.map fun e => e.duration.bucket) :=
    Table.counts_perm (s.events_swap.map fun e => e.duration.bucket)
  have hmeasures : s.swap.measures.length = s.measures.length := List.length_map _
  simp only [statistics, hvoice, hpitches, hdurations, hmeasures, Statistics.swap, Hands.swap_ofFn,
    Hand.other, Nat.add_comm]
  rfl

/--
**The hands are treated alike.** If the hands of every measure are exchanged, a score fails with the
same error, or its report has the results, counts and averages of the hands exchanged and is the
same otherwise, with equally many lines about deviations. So it is for a measure on its own, and the
statistics only have the numbers of events exchanged.
-/
theorem hands_symmetric (s : Score) (settings : Settings) (request : MeasureRequest) :
    s.swap.validate settings = (s.validate settings).map Report.swap ∧
      (∀ r : Report, r.swap.describeInvalid.length = r.describeInvalid.length ∧
        r.swap.deviations.Perm (r.deviations.map Deviation.swap)) ∧
      request.swap.run.run.value = request.run.run.value.map MeasureAnswer.swap ∧
      s.swap.statistics = s.statistics.swap :=
  ⟨s.validate_swap settings,
    fun r => ⟨r.length_describeInvalid_swap, MeterCheck.deviations_swap r.results⟩,
    request.run_swap, s.statistics_swap⟩

end MeterCheck
