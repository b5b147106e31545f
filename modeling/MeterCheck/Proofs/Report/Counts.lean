import MeterCheck.Proofs.Report.Boundary

/-!
# The counts of a report

* `Report.Balanced`: the counts of a report agree with each other and with its results;
* `MeasureResult.Conjoined`: a result is valid if its voices are, which holds of every verdict;
* `Report.VoicesBalanced`: how the counts of valid voices bound the count of valid measures;
* `Report.counts_balanced`: every report is balanced, and those of scores in both ways.
-/

namespace MeterCheck

/-! ## Counting -/

section

variable {α : Type} {p q : α → Bool} {xs : List α}

theorem countP_add_countP (p q : α → Bool) (xs : List α) :
    xs.countP p + xs.countP q =
      xs.countP (fun x => p x || q x) + xs.countP (fun x => p x && q x) := by
  induction xs with
  | nil => rfl
  | cons x xs ih =>
    simp only [List.countP_cons]
    cases p x <;> cases q x <;> simp <;> omega

/-- If few have neither property, many have both. -/
theorem countP_add_countP_le (p q : α → Bool) (xs : List α) :
    xs.countP p + xs.countP q ≤ xs.length + xs.countP (fun x => p x && q x) := by
  rw [countP_add_countP]
  apply Nat.add_le_add_right
  exact List.countP_le_length

end

/-! ## Measures -/

namespace Report

/-- The counts of measures, and the two lists of them, are those of the results. -/
structure Balanced (r : Report) : Prop where
  total : r.total = r.results.length
  sum : r.valid + r.invalid = r.total
  allValid : r.allValid = true ↔ ∀ x ∈ r.results, x.bothValid = true
  /-- Each result is in one of the lists, which have the order of the results. -/
  parts : (r.validResults ++ r.invalidResults).Perm r.results
  validResults : r.validResults.Sublist r.results
  invalidResults : r.invalidResults.Sublist r.results
  bothValid : ∀ x ∈ r.validResults, x.bothValid = true
  notBothValid : ∀ x ∈ r.invalidResults, x.bothValid = false
  valid : r.validResults.length = r.valid
  invalid : r.invalidResults.length = r.invalid

theorem balanced_ofResults (signature : TimeSignature) (xs : List MeasureResult) :
    (ofResults signature xs).Balanced := by
  have hparts : ((ofResults signature xs).validResults ++
      (ofResults signature xs).invalidResults).Perm xs := by
    have hperm := List.filter_append_perm (fun x : MeasureResult => x.bothValid) xs
    simpa [Report.validResults, Report.invalidResults, ofResults] using hperm
  have hvalid : (ofResults signature xs).validResults.length = (ofResults signature xs).valid :=
    List.countP_eq_length_filter.symm
  have hsum := hparts.length_eq
  rw [List.length_append, hvalid] at hsum
  have htotal : (ofResults signature xs).invalid = xs.length - (ofResults signature xs).valid := rfl
  constructor
  case total => rfl
  case sum =>
    change _ = xs.length
    omega
  case allValid => exact allValid_ofResults
  case parts => exact hparts
  case validResults => exact List.filter_sublist
  case invalidResults => exact List.filter_sublist
  case bothValid =>
    intro x hx
    exact (List.mem_filter.1 hx).2
  case notBothValid =>
    intro x hx
    simpa using (List.mem_filter.1 hx).2
  case valid => exact hvalid
  case invalid => omega

end Report

/-! ## Voices -/

/-- A measure is valid if both its voices are. -/
def MeasureResult.Conjoined (x : MeasureResult) : Prop :=
  x.bothValid = (x.hands.right.valid && x.hands.left.valid)

theorem Measure.conjoined_judge (m : Measure) (signature : TimeSignature) (position : Position)
    (settings : Settings) : (m.judge signature position settings).Conjoined := rfl

theorem conjoined_judgeAll (settings : Settings) (ms : List Measure)
    (signatures : List TimeSignature) :
    ∀ x ∈ judgeAll settings ms signatures, x.Conjoined := by
  intro x hx
  rw [judgeAll] at hx
  obtain ⟨i, hi, rfl⟩ := List.mem_mapIdx.1 hx
  exact Measure.conjoined_judge _ _ _ _

namespace Report

/-- The counts of valid voices bound the count of valid measures from below and from above. -/
structure VoicesBalanced (r : Report) : Prop where
  add_le : r.validVoices.right + r.validVoices.left ≤ r.total + r.valid
  valid_le : r.valid ≤ min r.validVoices.right r.validVoices.left
  allValid : r.allValid = true ↔ r.validVoices.right = r.total ∧ r.validVoices.left = r.total

theorem voicesBalanced_ofResults (signature : TimeSignature) {xs : List MeasureResult}
    (h : ∀ x ∈ xs, x.Conjoined) : (ofResults signature xs).VoicesBalanced := by
  have hvalid : (ofResults signature xs).valid =
      xs.countP fun x => x.hands.right.valid && x.hands.left.valid := by
    apply List.countP_congr
    intro x hx
    rw [h x hx]
  constructor
  case add_le =>
    rw [hvalid]
    exact countP_add_countP_le _ _ xs
  case valid_le =>
    rw [hvalid]
    apply le_min
    · apply List.countP_mono_left
      intro x _ hboth
      exact (Bool.and_eq_true_iff.1 hboth).1
    · apply List.countP_mono_left
      intro x _ hboth
      exact (Bool.and_eq_true_iff.1 hboth).2
  case allValid =>
    have hcounts (hand : Hand) : xs.countP (fun x => (x.hands.get hand).valid) = xs.length ↔
        ∀ x ∈ xs, (x.hands.get hand).valid = true := List.countP_eq_length
    rw [allValid_ofResults]
    constructor
    · intro hall
      have hboth (x : MeasureResult) (hx : x ∈ xs) :=
        Bool.and_eq_true_iff.1 ((h x hx).symm.trans (hall x hx))
      exact ⟨(hcounts .right).2 fun x hx => (hboth x hx).1,
        (hcounts .left).2 fun x hx => (hboth x hx).2⟩
    · intro ⟨hright, hleft⟩ x hx
      rw [h x hx, Bool.and_eq_true_iff]
      exact ⟨(hcounts .right).1 hright x hx, (hcounts .left).1 hleft x hx⟩

/--
**The counts of a report agree.** A report on any results holds them in order, and its counts, its
flag and its two lists of measures are those of the results. In the report on a score the measures
that are valid are moreover at most as many as the valid voices of each hand, and at least as many
as the valid voices of both hands exceed the number of measures; all are valid if all voices are.
-/
theorem counts_balanced (signature : TimeSignature) (xs : List MeasureResult) :
    (ofResults signature xs).results = xs ∧ (ofResults signature xs).Balanced ∧
      ∀ (s : Score) settings r, s.validate settings = .ok r → r.Balanced ∧ r.VoicesBalanced := by
  refine ⟨rfl, balanced_ofResults signature xs, ?run⟩
  intro s settings r hr
  obtain ⟨own, signatures, -, -, -, rfl⟩ := Score.run_eq_ok.1 hr
  exact ⟨balanced_ofResults own _, voicesBalanced_ofResults own (conjoined_judgeAll _ _ _)⟩

/-- Two of three measures have one valid voice, and none is valid. -/
theorem counts_balanced_of_halves :
    let full : List Event := [⟨["C4"], .piece (.name "whole")⟩]
    let s : Score := .ofMeasures [⟨.number 1, none, ⟨full, []⟩⟩, ⟨.number 2, none, ⟨[], full⟩⟩,
      .empty (.number 3) none]
    ∃ r, s.validate .default = .ok r ∧ r.Balanced ∧ r.VoicesBalanced ∧ r.total = 3 ∧ r.valid = 0 ∧
      r.validVoices = ⟨1, 1⟩ := by
  intro full s
  obtain ⟨r, hr⟩ : ∃ r, s.validate .default = .ok r := ⟨_, rfl⟩
  obtain ⟨-, -, hrun⟩ := counts_balanced .common []
  obtain ⟨hbalanced, hvoices⟩ := hrun s .default r hr
  refine ⟨r, hr, hbalanced, hvoices, ?_, ?_, ?_⟩
  all_goals
    cases hr
    decide +kernel

end Report

end MeterCheck
