import MeterCheck.Proofs.Beats.Order
import MeterCheck.Proofs.Report.Carry
import Mathlib.Data.List.Forall2

/-!
# Strict and relaxed boundaries

* `MeasureResult.Relaxes`: one result for a measure beside another that is no stricter;
* `Report.Relaxes`: the same for reports, which may differ in the first and the last result alone;
* `Score.pickup_relaxes`: so does judging by the relaxed rule, the more the smaller the least length
  is, while the strict rule does not depend on it.
-/

namespace MeterCheck

/-! ## Voices -/

/-- The strict rule is part of the relaxed one, and the least length does not occur in it. -/
theorem isValid_of_middle {a e : Beats} {settings settings' : Settings} {position : Position}
    (h : isValid a e .middle settings = true) : isValid a e position settings' = true := by
  have hstrict : (a - e).abs.le tolerance = true := by
    simpa [isValid, Position.isBoundary] using h
  simp [isValid, hstrict]

theorem isValid_of_lower {a e m m' : Beats} {position : Position} {mode : BoundaryMode}
    (hm : Beats.Ordered [m, e, a]) (hm' : Beats.Ordered [m', e, a]) (hle : m'.toRat ≤ m.toRat)
    (h : isValid a e position ⟨mode, m⟩ = true) : isValid a e position ⟨mode, m'⟩ = true := by
  simp only [isValid, Bool.or_eq_true, Bool.and_eq_true, Beats.min_le_iff hm,
    Beats.min_le_iff hm'] at h ⊢
  refine h.imp_right ?_
  rintro ⟨⟨hboundary, hmin⟩, hmax⟩
  exact ⟨⟨hboundary, hmin.imp_left hle.trans⟩, hmax⟩

/-! ## Measures -/

/-- The same lengths, and every flag that is set in the first result is set in the second. -/
structure MeasureResult.Relaxes (x y : MeasureResult) : Prop where
  id : y.id = x.id
  signature : y.signature = x.signature
  expected : y.expected = x.expected
  duration : ∀ hand, (y.hands.get hand).duration = (x.hands.get hand).duration
  error : ∀ hand, (y.hands.get hand).error = (x.hands.get hand).error
  unrecognized : ∀ hand, (y.hands.get hand).unrecognized = (x.hands.get hand).unrecognized
  valid : ∀ hand, (x.hands.get hand).valid = true → (y.hands.get hand).valid = true
  bothValid : x.bothValid = true → y.bothValid = true

theorem Measure.judge_relaxes {m : Measure} {signature : TimeSignature} {p p' : Position}
    {settings settings' : Settings}
    (h : ∀ hand, isValid (tally (m.voice hand)).total signature.expected p settings = true →
      isValid (tally (m.voice hand)).total signature.expected p' settings' = true) :
    (m.judge signature p settings).Relaxes (m.judge signature p' settings') := by
  constructor
  case valid =>
    intro hand
    cases hand
    · exact h .right
    · exact h .left
  case bothValid =>
    intro hboth
    obtain ⟨hright, hleft⟩ := Bool.and_eq_true_iff.1 hboth
    exact Bool.and_eq_true_iff.2 ⟨h .right hright, h .left hleft⟩
  all_goals first | rfl | intro hand; cases hand <;> rfl

/-! ## Reports -/

/-- Two ways of judging are compared measure by measure. -/
theorem forall₂_judgeAll {R : MeasureResult → MeasureResult → Prop} {settings settings' : Settings}
    {ms : List Measure} {signatures : List TimeSignature}
    (h : ∀ i (m : Measure) (signature : TimeSignature), ms[i]? = some m →
      signatures[i]? = some signature →
      R (m.judge signature (settings.positionOf i ms.length) settings)
        (m.judge signature (settings'.positionOf i ms.length) settings')) :
    List.Forall₂ R (judgeAll settings ms signatures) (judgeAll settings' ms signatures) := by
  rw [List.forall₂_iff_get]
  refine ⟨by simp [judgeAll], ?_⟩
  intro i hi hi'
  simp only [judgeAll, List.length_mapIdx, List.length_zip] at hi
  simp only [judgeAll, List.get_eq_getElem, List.getElem_mapIdx, List.getElem_zip]
  exact h i _ _ (List.getElem?_eq_getElem (by omega)) (List.getElem?_eq_getElem (by omega))

theorem countP_le_of_forall₂ {α : Type} {p : α → Bool} {xs ys : List α}
    (h : List.Forall₂ (fun x y => p x = true → p y = true) xs ys) : xs.countP p ≤ ys.countP p := by
  induction h with
  | nil => exact Nat.le_refl _
  | @cons x y xs ys hxy _ ih =>
    rw [List.countP_cons, List.countP_cons]
    cases hx : p x with
    | false => simp only [Bool.false_eq_true, ↓reduceIte]; omega
    | true => simp only [hxy hx, ↓reduceIte]; omega

/-- All but the first and the last. -/
def inner {α : Type} (xs : List α) : List α := xs.tail.dropLast

theorem countP_inner_le {α : Type} (p : α → Bool) (xs : List α) :
    (inner xs).countP p ≤ xs.countP p :=
  ((List.dropLast_sublist _).trans (List.tail_sublist xs)).countP_le

theorem countP_le_inner {α : Type} (p : α → Bool) (xs : List α) :
    xs.countP p ≤ (inner xs).countP p + min xs.length 2 := by
  rcases xs with _ | ⟨x, xs⟩
  · exact Nat.le_refl _
  · rcases List.eq_nil_or_concat' xs with rfl | ⟨ys, y, rfl⟩
    · simp only [List.countP_cons, List.countP_nil, List.length_cons, List.length_nil]
      split <;> omega
    · simp only [inner, List.tail_cons, List.dropLast_concat, List.countP_cons, List.countP_append,
        List.countP_nil, List.length_cons, List.length_append, List.length_nil]
      split <;> split <;> omega

theorem inner_eq {α : Type} {xs ys : List α} (hlength : ys.length = xs.length)
    (h : ∀ i, 0 < i → i + 1 < xs.length → ys[i]? = xs[i]?) : inner ys = inner xs := by
  apply List.ext_getElem?
  intro i
  simp only [inner, List.getElem?_dropLast, List.length_tail, List.getElem?_tail, hlength]
  split
  · exact h (i + 1) (by omega) (by omega)
  · rfl

namespace Report

/-- A report that is no stricter: of the results, only the first and the last may differ. -/
structure Relaxes (x y : Report) : Prop where
  signature : y.signature = x.signature
  total : y.total = x.total
  results : List.Forall₂ MeasureResult.Relaxes x.results y.results
  inner : ∀ i, 0 < i → i + 1 < x.total → y.results[i]? = x.results[i]?
  meanErrors : y.meanErrors = x.meanErrors
  allValid : x.allValid = true → y.allValid = true
  valid_le : x.valid ≤ y.valid
  le_valid : y.valid ≤ x.valid + min x.total 2

theorem allValid_ofResults {signature : TimeSignature} {xs : List MeasureResult} :
    (ofResults signature xs).allValid = true ↔ ∀ x ∈ xs, x.bothValid = true := by
  have hle : xs.countP (fun r => r.bothValid) ≤ xs.length := List.countP_le_length
  have hall : (∀ x ∈ xs, x.bothValid = true) ↔ xs.countP (fun r => r.bothValid) = xs.length :=
    List.countP_eq_length.symm
  simp only [ofResults, beq_iff_eq, hall]
  omega

theorem relaxes_ofResults {signature : TimeSignature} {xs ys : List MeasureResult}
    (h : List.Forall₂ MeasureResult.Relaxes xs ys)
    (hinner : ∀ i, 0 < i → i + 1 < xs.length → ys[i]? = xs[i]?) :
    (ofResults signature xs).Relaxes (ofResults signature ys) where
  signature := rfl
  total := h.length_eq.symm
  results := h
  inner := hinner
  meanErrors := by
    have herrors (hand : Hand) : ys.map (fun r => (r.hands.get hand).error.toDouble) =
        xs.map fun r => (r.hands.get hand).error.toDouble := by
      apply map_eq_of_forall₂
      exact h.imp fun _ _ hxy => congrArg Beats.toDouble (hxy.error hand)
    simp only [ofResults, herrors]
  allValid := by
    rw [allValid_ofResults, allValid_ofResults]
    intro hall y hy
    obtain ⟨x, hx, hxy⟩ := exists_left_of_forall₂ h hy
    exact hxy.bothValid (hall x hx)
  valid_le := countP_le_of_forall₂ (h.imp fun _ _ hxy => hxy.bothValid)
  le_valid := by
    calc ys.countP (·.bothValid)
      _ ≤ (MeterCheck.inner ys).countP (·.bothValid) + min ys.length 2 := countP_le_inner _ ys
      _ = (MeterCheck.inner xs).countP (·.bothValid) + min xs.length 2 := by
        rw [inner_eq h.length_eq.symm hinner, h.length_eq]
      _ ≤ xs.countP (·.bothValid) + min xs.length 2 :=
        Nat.add_le_add_right (countP_inner_le _ xs) _

end Report

/-! ## Scores -/

namespace Score

variable {s : Score} {settings : Settings} {r : Report}

/-- A report on a score that has one, with its results for any settings. -/
theorem reports_of_ok (h : s.validate settings = .ok r) : ∃ signature signatures,
    signatures.length = s.measures.length ∧ ∀ settings', s.validate settings' =
      .ok (.ofResults signature (judgeAll settings' s.measures signatures)) := by
  obtain ⟨signature, signatures, hdefault, hne, hcarry, -⟩ := run_eq_ok.1 h
  exact ⟨signature, signatures, (carry_ok hdefault hcarry).1,
    fun _ => run_eq_ok.2 ⟨signature, signatures, hdefault, hne, hcarry, rfl⟩⟩

theorem result_judgeAll {ms : List Measure} {signatures : List TimeSignature}
    (hlength : signatures.length = ms.length) {i : Nat} (hi : i < ms.length) :
    ∃ m signature, ms[i]? = some m ∧ ∀ settings : Settings,
      (judgeAll settings ms signatures)[i]? =
        some (m.judge signature (settings.positionOf i ms.length) settings) := by
  have hm : ms[i]? = some ms[i] := List.getElem?_eq_getElem hi
  have hs : signatures[i]? = some signatures[i] := List.getElem?_eq_getElem (hlength ▸ hi)
  exact ⟨_, _, hm, fun _ => getElem?_judgeAll hm hs⟩

/-- A measure that is neither the first nor the last is judged strictly. -/
theorem judgeAll_inner {ms : List Measure} {signatures : List TimeSignature}
    (hlength : signatures.length = ms.length) (settings settings' : Settings) {i : Nat}
    (hfirst : 0 < i) (hlast : i + 1 < ms.length) :
    (judgeAll settings ms signatures)[i]? = (judgeAll settings' ms signatures)[i]? := by
  have hmiddle (settings : Settings) : settings.positionOf i ms.length = .middle := by
    unfold Settings.positionOf
    split
    · rfl
    · rw [if_neg (by omega), if_neg (by omega)]
  obtain ⟨m, signature, -, hresult⟩ := result_judgeAll hlength (i := i) (by omega)
  rw [hresult, hresult, hmiddle, hmiddle]
  rfl

end Score

/-- The least length may be compared with the lengths of all voices. -/
def Report.OrderedWith (r : Report) (m : Beats) : Prop :=
  ∀ x ∈ r.results, ∀ hand, Beats.Ordered [m, x.expected, (x.hands.get hand).duration]

namespace Score

variable {s : Score} {settings : Settings} {r : Report}

/--
**The relaxed rule only relaxes, and only at the boundaries.** If a score has a report, it has one
for any settings. The strict one is the same for every least length, and the relaxed one differs
from it in flags of the first and the last result alone, all of which were not set. A smaller
least length is no stricter, wherever the fractions are in order.
-/
theorem pickup_relaxes (h : s.validate settings = .ok r) :
    ∃ strict : Report, strict.total = s.measures.length ∧
      (∀ m, s.validate ⟨.strict, m⟩ = .ok strict) ∧
      ∀ m, ∃ pickup, s.validate ⟨.pickup, m⟩ = .ok pickup ∧ strict.Relaxes pickup ∧
        (∀ i x, pickup.results[i]? = some x → x.position =
          if i = 0 then .first else if i + 1 = s.measures.length then .last else .middle) ∧
        ∀ m' pickup', s.validate ⟨.pickup, m'⟩ = .ok pickup' →
          strict.OrderedWith m → strict.OrderedWith m' → m'.toRat ≤ m.toRat →
          pickup.Relaxes pickup' := by
  obtain ⟨signature, signatures, hlength, hreport⟩ := reports_of_ok h
  have hinner (settings settings' : Settings) (i : Nat) (hfirst : 0 < i)
      (hlast : i + 1 < (judgeAll settings s.measures signatures).length) :
      (judgeAll settings' s.measures signatures)[i]? =
        (judgeAll settings s.measures signatures)[i]? := by
    rw [length_judgeAll hlength] at hlast
    exact judgeAll_inner hlength _ _ hfirst hlast
  refine ⟨.ofResults signature (judgeAll .default s.measures signatures),
    length_judgeAll hlength, fun m => hreport ⟨.strict, m⟩, fun m => ⟨_, hreport _, ?_, ?_, ?_⟩⟩
  · refine Report.relaxes_ofResults (forall₂_judgeAll ?_) (hinner _ _)
    intro i m signature _ _
    exact Measure.judge_relaxes fun hand => isValid_of_middle
  · intro i x hx
    obtain ⟨hi, -⟩ := List.getElem?_eq_some_iff.1 hx
    obtain ⟨m, own, -, hresult⟩ := result_judgeAll hlength (i := i) (length_judgeAll hlength ▸ hi)
    cases (hresult _).symm.trans hx
    rfl
  · intro m' pickup' hpickup' hm hm' hle
    cases (hreport _).symm.trans hpickup'
    refine Report.relaxes_ofResults (forall₂_judgeAll ?_) (hinner _ _)
    intro i measure own hmeasure hown
    apply Measure.judge_relaxes
    intro hand
    have hmem := List.mem_of_getElem? (@getElem?_judgeAll .default _ _ _ _ _ hmeasure hown)
    have hordered := hm _ hmem hand
    have hordered' := hm' _ hmem hand
    cases hand with
    | right => exact isValid_of_lower hordered hordered' hle
    | left => exact isValid_of_lower hordered hordered' hle

/-- A pickup of one beat in a first measure: too short for a least length of two beats. -/
theorem pickup_relaxes_of_upbeat :
    let upbeat : Measure :=
      ⟨.number 0, none, ⟨[⟨["C4"], .piece (.name "quarter")⟩], [⟨["Rest"], .piece (.name "half")⟩]⟩⟩
    let s : Score := .ofMeasures [upbeat, .empty (.number 1) none, upbeat]
    ∃ strict pickup pickup', s.validate ⟨.strict, ⟨2, 1⟩⟩ = .ok strict ∧
      s.validate ⟨.pickup, ⟨2, 1⟩⟩ = .ok pickup ∧ s.validate ⟨.pickup, ⟨1, 1⟩⟩ = .ok pickup' ∧
      strict.OrderedWith ⟨2, 1⟩ ∧ strict.OrderedWith ⟨1, 1⟩ ∧
      Beats.toRat ⟨1, 1⟩ ≤ Beats.toRat ⟨2, 1⟩ ∧ strict.Relaxes pickup ∧ pickup.Relaxes pickup' ∧
      strict.valid = 0 ∧ pickup.valid = 0 ∧ pickup'.valid = 2 := by
  intro upbeat s
  obtain ⟨r, hr⟩ : ∃ r, s.validate .default = .ok r := ⟨_, rfl⟩
  obtain ⟨strict, -, hstrict, hrelaxed⟩ := pickup_relaxes hr
  obtain ⟨pickup, hpickup, hrelaxes, -, hlower⟩ := hrelaxed ⟨2, 1⟩
  obtain ⟨pickup', hpickup', -, -, -⟩ := hrelaxed ⟨1, 1⟩
  have hpos : (strict.results.all fun x => decide (0 < x.expected.denom)
      && decide (0 < x.hands.right.duration.denom) && decide (0 < x.hands.left.duration.denom)) =
      true := by
    cases (hstrict ⟨2, 1⟩).symm.trans rfl
    decide +kernel
  have hordered (m : Beats) (hm : 0 < m.denom) : strict.OrderedWith m := by
    intro x hx hand
    have hx := List.all_eq_true.1 hpos x hx
    simp only [Bool.and_eq_true, decide_eq_true_eq] at hx
    obtain ⟨⟨hexpected, hright⟩, hleft⟩ := hx
    apply Beats.ordered_of_pos
    cases hand with
    | right => simpa using ⟨hm, hexpected, hright⟩
    | left => simpa using ⟨hm, hexpected, hleft⟩
  have hle : Beats.toRat ⟨1, 1⟩ ≤ Beats.toRat ⟨2, 1⟩ := by
    norm_num [Beats.toRat]
  have htwo := hordered ⟨2, 1⟩ (by decide)
  have hone := hordered ⟨1, 1⟩ (by decide)
  refine ⟨strict, pickup, pickup', hstrict _, hpickup, hpickup', htwo, hone, hle, hrelaxes,
    hlower _ _ hpickup' htwo hone hle, ?_, ?_, ?_⟩
  · cases (hstrict ⟨2, 1⟩).symm.trans rfl
    decide +kernel
  · cases hpickup.symm.trans rfl
    decide +kernel
  · cases hpickup'.symm.trans rfl
    decide +kernel

end Score

end MeterCheck
