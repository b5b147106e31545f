import MeterCheck.Proofs.Json.Sendable
import MeterCheck.Proofs.Score.Statistics
import MeterCheck.Proofs.Verdict.Finite
import MeterCheck.Proofs.Verdict.Tally

/-!
# Reports that can be sent

* `MeasureResult.Fits`: a result without an infinite number, and with an identifier and indices that
  are words;
* `proper_mean`: a mean is finite, however many terms it has;
* `MeasureAnswer.sendable`, `Report.sendable`: a verdict and a report can be sent.
-/

namespace MeterCheck

/-! ## Verdicts -/

/-- A measure with an identifier that is a word, and with no more events than a word can count. -/
structure Measure.Fits (m : Measure) : Prop where
  id : m.id.Fits
  voices : ∀ hand, (m.voice hand).length < 2 ^ 64

theorem Measure.fits_of_read {source : Source} {v : Json} {m : Measure}
    (h : (record source).read source v = .ok m) (hv : v.weight < 2 ^ 63) : m.Fits := by
  have hunknown : MeasureId.unknown.Fits := trivial
  have hid := (fields_ok (Record.read_members h)).1
  refine ⟨Fields.Ensures.orDefault "id" MeasureId.reader_ensures hunknown _ _ hid, fun hand => ?_⟩
  have hsize := Measure.sized source hand v m h
  have hlength : (m.voice hand).length ≤ m.voiceSize hand := length_le_eventsSize _
  omega

theorem Score.fits_of_read {source : Source} {members : Members} {s : Score}
    (h : (record source).fields.read members = .ok s) (hv : ∀ m ∈ members, m.2.weight < 2 ^ 63) :
    ∀ m ∈ s.measures, m.Fits := by
  intro m hm
  obtain ⟨member, hmember, c, hc, hread⟩ := Fields.exists_of_list (fields_ok h).2.2 m hm
  have hlt := Json.weight_lt_of_mem_children hc
  exact Measure.fits_of_read hread (hlt.trans (hv member hmember))

structure MeasureResult.Fits (r : MeasureResult) : Prop where
  id : r.id.Fits
  finite : r.Finite
  indices : ∀ hand, ∀ i ∈ (r.hands.get hand).unrecognized, i < 2 ^ 64

theorem index_lt_of_unrecognized {events : List Event} {i : Nat}
    (h : i ∈ (tally events).unrecognized) : i < events.length := by
  obtain ⟨e, he, -⟩ := mem_unrecognized.1 h
  exact (List.getElem?_eq_some_iff.1 he).1

theorem Measure.Fits.judge {m : Measure} (hm : m.Fits) {s : TimeSignature} (hs : s.Proper)
    (position : Position) (settings : Settings) : (m.judge s position settings).Fits := by
  refine ⟨hm.id, m.finite_judge hs position settings, fun hand i hi => ?_⟩
  rw [Measure.judge, Hands.get_map] at hi
  exact (index_lt_of_unrecognized hi).trans (hm.voices hand)

section

open Json

variable {n : Nat}

theorem MeasureId.sendable {id : MeasureId} (h : id.Fits) : id.toJson.Sendable n := by
  refine ⟨id.within_toJson h n, ?_⟩
  cases id with
  | number n => exact .int n
  | text s => exact .string s

theorem sendable_indices? {ns : List Nat} (h : ∀ i ∈ ns, i < 2 ^ 64) :
    ∀ v ∈ indices? ns, v.Sendable (n + 1) := by
  intro v hv
  unfold indices? at hv
  split at hv
  · cases hv
  · cases hv
    exact .array_map fun i hi => .ofNat (h i hi)

theorem Beats.sendable_toNumber {a : Beats} (h : a.toDouble.AtMost 64) : a.toNumber.Sendable n :=
  .double h.proper

namespace MeasureResult.Fits

variable {r : MeasureResult}

theorem hand_sendable (h : r.Fits) (hand : Hand) : (r.hands.get hand).toJson.Sendable 2 := by
  refine .ofMembers (by simp) ?_
  simp only [List.forall_mem_cons, Option.mem_def, Option.some.injEq, forall_eq']
  exact ⟨Beats.sendable_toNumber (h.finite.duration hand), .bool _,
    Beats.sendable_toNumber (h.finite.error hand), sendable_indices? (h.indices hand), by simp⟩

theorem sendable (h : r.Fits) : r.toJson.Sendable 2 := by
  have number (a : Beats) (ha : a.toDouble.AtMost 64) : a.toNumber.Sendable 1 :=
    Beats.sendable_toNumber ha
  have duration (hand : Hand) := number _ (h.finite.duration hand)
  have error (hand : Hand) := number _ (h.finite.error hand)
  have indices (hand : Hand) : ∀ v ∈ indices? (r.hands.get hand).unrecognized, v.Sendable 1 :=
    sendable_indices? (h.indices hand)
  refine .ofMembers (by simp) ?_
  simp only [List.forall_mem_cons, Option.mem_def, Option.some.injEq, forall_eq']
  exact ⟨MeasureId.sendable h.id, .string _, number _ h.finite.expected, duration .right,
    duration .left, .bool _, .bool _, .bool _, error .right, error .left, .string _,
    indices .right, indices .left, by simp⟩

end MeasureResult.Fits

theorem MeasureAnswer.sendable {r : MeasureResult} (h : r.Fits) :
    (MeasureAnswer.ofResult r).toJson.Sendable 3 := by
  refine .object (by simp) ?_
  simp only [List.forall_mem_cons]
  exact ⟨.bool _, MeasureId.sendable h.id, .string _, Beats.sendable_toNumber h.finite.expected,
    h.hand_sendable .right, h.hand_sendable .left, by simp⟩

/-! ## Reports -/

/-- The sum stays below a power of two that the terms do not come near. -/
theorem proper_mean {xs : List Binary64} (hxs : ∀ x ∈ xs, x.AtMost 64)
    (hlength : xs.length < 2 ^ 64) : (mean xs).Proper := by
  unfold mean
  split
  · exact Binary64.proper_zero false
  · rename_i hne
    have hone : 1 ≤ xs.length := List.length_pos_iff.2 fun hnil => hne (hnil ▸ rfl)
    have hmax : 2 ^ 64 < (2 ^ 54 - 1) * 2 ^ 970 := by decide +kernel
    have hlt := Binary64.natCast_lt_overflow (hlength.trans hmax)
    have hsum : (xs.foldl Binary64.add (.zero false)).AtMost 118 :=
      (Binary64.atMost_zero false 118).foldl_add hxs (by decide) (by decide)
    exact (hsum.div_ofNat hone hlt (by decide) (by decide)).proper

theorem Report.sendable {results : List MeasureResult} (h : ∀ r ∈ results, r.Fits)
    (hlength : results.length < 2 ^ 64) (signature : TimeSignature) :
    (Report.ofResults signature results).toJson.Sendable 4 := by
  have count (p : MeasureResult → Bool) : (Json.ofNat (results.countP p)).Sendable 2 :=
    .ofNat (List.countP_le_length.trans_lt hlength)
  have error (hand : Hand) :
      (Json.double (mean (results.map fun r => (r.hands.get hand).error.toDouble))).Sendable 2 := by
    refine .double (proper_mean (fun x hx => ?_) (by rwa [List.length_map]))
    obtain ⟨r, hr, rfl⟩ := List.mem_map.1 hx
    exact (h r hr).finite.error hand
  have invalid : (Json.ofNat (results.length - results.countP fun r => r.bothValid)).Sendable 3 :=
    .ofNat ((Nat.sub_le _ _).trans_lt hlength)
  refine .object (by simp) ?_
  simp only [List.forall_mem_cons]
  refine ⟨.string _, .ofNat hlength, (count _).mono (by decide), invalid, .bool _,
    .array_map fun r hr => (h r hr).sendable, .object (by simp) ?_, by simp⟩
  simp only [List.forall_mem_cons]
  exact ⟨count _, count _, error .right, error .left, by simp⟩

end

/-- **Every report can be sent** if its measures fit. -/
theorem Score.sendable_of_ok {s : Score} {settings : Settings} {r : Report}
    (h : s.validate settings = .ok r) (hfits : ∀ m ∈ s.measures, m.Fits)
    (hlength : s.measures.length < 2 ^ 64) : r.toJson.Sendable 4 := by
  have hresults : ∀ x ∈ r.results, x.Fits := by
    intro x hx
    obtain ⟨m, hm, signature, i, hproper, rfl⟩ := exists_judge_of_ok h hx
    exact (hfits m hm).judge hproper _ _
  have hcount : r.results.length < 2 ^ 64 := (length_results_of_ok h).trans_lt hlength
  obtain ⟨signature, signatures, _, _, _, rfl⟩ := run_eq_ok.1 h
  exact Report.sendable hresults hcount signature

end MeterCheck
