import MeterCheck.Proofs.Report.Append
import MeterCheck.Proofs.Report.Failure

/-!
# Signatures written into the measures

A score may as well declare the signature of every measure in the measure itself.

* `Measure.declare`, `Score.declare`: measures that have their signature as their own;
* `reorder`: the elements of a list at given indices;
* `Report.SameCounts`: reports that count the same;
* `Score.validate_declare`: the report stays as it is, it no longer depends on the default, and by
  the strict rule it no longer depends on the order of the measures.
-/

namespace MeterCheck

/-- The measure with that signature as its own. -/
def Measure.declare (m : Measure) (signature : TimeSignature) : Measure :=
  { m with signature := some (.ofSignature signature) }

/-- Every measure with its signature from the list as its own. -/
def Score.declare (s : Score) (signatures : List TimeSignature) : Score :=
  { s with measures := List.zipWith Measure.declare s.measures signatures }

/-- The elements at these indices, in this order. -/
def reorder {α : Type} (order : List Nat) (xs : List α) : List α := order.filterMap (xs[·]?)

/-! ## Lists in another order -/

section

variable {α β γ : Type} {order : List Nat} {i : Nat} {xs : List α} {ys : List β}

theorem reorder_cons_of_lt (h : i < xs.length) :
    reorder (i :: order) xs = xs[i] :: reorder order xs := by
  rw [reorder, List.filterMap_cons, List.getElem?_eq_getElem h]
  rfl

theorem reorder_cons_of_le (h : xs.length ≤ i) : reorder (i :: order) xs = reorder order xs := by
  rw [reorder, List.filterMap_cons, List.getElem?_eq_none h]
  rfl

theorem reorder_range (xs : List α) : reorder (List.range xs.length) xs = xs := by
  induction xs with
  | nil => rfl
  | cons x xs ih =>
    rw [List.length_cons, List.range_succ_eq_map, reorder, List.filterMap_cons, List.filterMap_map]
    exact congrArg (x :: ·) ih

theorem reorder_perm (h : order.Perm (List.range xs.length)) : (reorder order xs).Perm xs := by
  have hperm : (reorder order xs).Perm (reorder (List.range xs.length) xs) := h.filterMap _
  rwa [reorder_range] at hperm

theorem length_reorder (hlength : ys.length = xs.length) :
    (reorder order ys).length = (reorder order xs).length := by
  induction order with
  | nil => rfl
  | cons i order ih =>
    by_cases hi : i < xs.length
    · rw [reorder_cons_of_lt hi, reorder_cons_of_lt (hlength ▸ hi), List.length_cons,
        List.length_cons, ih]
    · have hle : xs.length ≤ i := Nat.not_lt.1 hi
      rw [reorder_cons_of_le hle, reorder_cons_of_le (hlength ▸ hle), ih]

theorem reorder_zipWith (f : α → β → γ) (hlength : ys.length = xs.length) :
    reorder order (List.zipWith f xs ys) =
      List.zipWith f (reorder order xs) (reorder order ys) := by
  have hzip : (List.zipWith f xs ys).length = xs.length := by
    rw [List.length_zipWith, hlength, Nat.min_self]
  induction order with
  | nil => rfl
  | cons i order ih =>
    by_cases hi : i < xs.length
    · rw [reorder_cons_of_lt (hzip ▸ hi), reorder_cons_of_lt hi, reorder_cons_of_lt (hlength ▸ hi),
        List.getElem_zipWith, List.zipWith_cons_cons, ih]
    · have hle : xs.length ≤ i := Nat.not_lt.1 hi
      rw [reorder_cons_of_le (hzip ▸ hle), reorder_cons_of_le hle,
        reorder_cons_of_le (hlength ▸ hle), ih]

end

/-! ## Measures with their own signatures -/

section

variable {current : TimeSignature} {ms : List Measure} {signatures : List TimeSignature}
  {settings : Settings}

/-- Whatever is carried to a measure with its own signature is left there. -/
theorem carry_declare (hlength : signatures.length = ms.length)
    (hproper : ∀ s ∈ signatures, s.Proper) :
    (carry current (List.zipWith Measure.declare ms signatures)).run.value = .ok signatures := by
  induction ms generalizing current signatures with
  | nil =>
    cases List.eq_nil_of_length_eq_zero hlength
    rfl
  | cons m ms ih =>
    cases signatures with
    | nil => cases hlength
    | cons next later =>
      obtain ⟨hnext, hlater⟩ := List.forall_mem_cons.1 hproper
      rw [List.zipWith_cons_cons, carry_cons_eq_ok]
      exact ⟨next, later, SignatureSpec.resolve_ofSignature hnext,
        ih (Nat.succ.inj hlength) hlater, rfl⟩

/-- A verdict is about the voices of a measure. -/
theorem judgeAll_declare (settings : Settings) (hlength : signatures.length = ms.length) :
    judgeAll settings (List.zipWith Measure.declare ms signatures) signatures =
      judgeAll settings ms signatures := by
  have hzip : (List.zipWith Measure.declare ms signatures).length = ms.length := by
    rw [List.length_zipWith, hlength, Nat.min_self]
  apply List.ext_getElem
  · rw [length_judgeAll (hlength.trans hzip.symm), length_judgeAll hlength, hzip]
  · intro i _ _
    simp only [judgeAll, List.getElem_mapIdx, List.getElem_zip, List.getElem_zipWith, hzip]
    rfl

end

/-! ## Reports -/

namespace Report

/-- The signature by which each measure was judged. -/
def signatures (r : Report) : List TimeSignature := r.results.map MeasureResult.signature

/-- Reports on equally many measures and voices, of which equally many are valid. -/
structure SameCounts (x y : Report) : Prop where
  total : y.total = x.total
  valid : y.valid = x.valid
  invalid : y.invalid = x.invalid
  allValid : y.allValid = x.allValid
  validVoices : y.validVoices = x.validVoices

theorem sameCounts_of_perm {signature signature' : TimeSignature} {xs ys : List MeasureResult}
    (h : ys.Perm xs) : (ofResults signature xs).SameCounts (ofResults signature' ys) := by
  have hcount (p : MeasureResult → Bool) : ys.countP p = xs.countP p := h.countP_eq p
  constructor <;> simp only [ofResults, h.length_eq, hcount]

end Report

/-! ## Scores -/

namespace Score

variable {s : Score} {ms : List Measure} {settings : Settings} {r : Report}
  {default : Option SignatureSpec} {signatures : List TimeSignature}

/-- The report on measures that have their own signatures, under any default. -/
theorem validate_of_declared (hne : ms ≠ []) (hlength : signatures.length = ms.length)
    (hproper : ∀ s ∈ signatures, s.Proper) {own : TimeSignature} (hdefault : Resolves default own) :
    ({ s with signature := default, measures := List.zipWith Measure.declare ms signatures } :
      Score).validate settings = .ok (.ofResults own (judgeAll settings ms signatures)) := by
  have hzip : List.zipWith Measure.declare ms signatures ≠ [] := by
    rw [← List.length_pos_iff, List.length_zipWith, hlength, Nat.min_self]
    exact List.length_pos_iff.2 hne
  refine run_eq_ok.2 ⟨own, signatures, hdefault, hzip, carry_declare hlength hproper, ?_⟩
  rw [judgeAll_declare settings hlength]

/-- The signatures of a report resolve what is in force in each measure. -/
theorem resolves_signatures (h : s.validate settings = .ok r) {i : Nat} {m : Measure}
    (hm : s.measures[i]? = some m) : ∃ spec own, InForce s.signature s.measures i spec ∧
      Resolves spec own ∧ r.signatures[i]? = some own := by
  obtain ⟨spec, own, hforce, hown, hat⟩ := result_of_ok h hm
  refine ⟨spec, own, hforce, hown, ?_⟩
  rw [Report.signatures, List.getElem?_map, hat]
  rfl

/-- A report is told by its signatures. -/
theorem results_eq_of_ok (h : s.validate settings = .ok r) :
    s.measures ≠ [] ∧ r.signatures.length = s.measures.length ∧ (∀ own ∈ r.signatures, own.Proper) ∧
      r.results = judgeAll settings s.measures r.signatures ∧
      r = .ofResults r.signature r.results := by
  obtain ⟨own, signatures, hdefault, hne, hcarry, rfl⟩ := run_eq_ok.1 h
  obtain ⟨hlength, hall⟩ := carry_ok hdefault hcarry
  have hsignatures : (Report.ofResults own (judgeAll settings s.measures signatures)).signatures =
      signatures := map_signature_judgeAll hlength
  rw [hsignatures]
  refine ⟨hne, hlength, ?_, rfl, rfl⟩
  intro next hnext
  obtain ⟨i, hi, rfl⟩ := List.getElem_of_mem hnext
  obtain ⟨_, _, _, hresolves, hat⟩ := hall i (hlength ▸ hi)
  rw [List.getElem?_eq_getElem hi] at hat
  cases hat
  exact hresolves.proper

/-- By the strict rule, measures with their own signatures may stand in any order. -/
theorem validate_reorder (h : s.validate settings = .ok r) (hstrict : settings.boundary = .strict)
    {order : List Nat} (horder : order.Perm (List.range s.measures.length)) :
    ({ s.declare r.signatures with
      measures := reorder order (s.declare r.signatures).measures } : Score).validate settings =
        .ok (.ofResults r.signature (reorder order r.results)) := by
  have hdefault : Resolves s.signature r.signature := signature_of_ok h
  obtain ⟨hne, hlength, hproper, hresults, -⟩ := results_eq_of_ok h
  have hmeasures := reorder_perm horder
  have hsignatures : (reorder order r.signatures).Perm r.signatures :=
    reorder_perm (hlength ▸ horder)
  have hne' : reorder order s.measures ≠ [] := by
    intro hnil
    exact hne (List.nil_perm.1 (hnil ▸ hmeasures))
  have hdeclared : reorder order (s.declare r.signatures).measures =
      List.zipWith Measure.declare (reorder order s.measures) (reorder order r.signatures) :=
    reorder_zipWith _ hlength
  rw [hdeclared, hresults, judgeAll_of_strict hstrict, reorder_zipWith _ hlength,
    ← judgeAll_of_strict hstrict]
  exact validate_of_declared (s := s) hne' (length_reorder hlength)
    (fun own hown => hproper own (hsignatures.mem_iff.1 hown)) hdefault

/--
**Writing the signatures into the measures changes nothing.** If every measure of a score that has a
report gets the signature in force there as its own, the report stays the same. Its results are the
same under any default that resolves. By the strict rule, the measures in another order have the
same results in that order, and all counts stay as they are.
-/
theorem validate_declare (h : s.validate settings = .ok r) :
    (∀ i m, s.measures[i]? = some m → ∃ spec own, InForce s.signature s.measures i spec ∧
      Resolves spec own ∧ (s.declare r.signatures).measures[i]? = some (m.declare own)) ∧
    (s.declare r.signatures).validate settings = .ok r ∧
    (∀ default, Resolvable default → ∃ r',
      ({ s.declare r.signatures with signature := default } : Score).validate settings = .ok r' ∧
        r'.results = r.results) ∧
    (settings.boundary = .strict →
      ∀ order : List Nat, order.Perm (List.range s.measures.length) → ∃ r',
        ({ s.declare r.signatures with
          measures := reorder order (s.declare r.signatures).measures } : Score).validate settings =
            .ok r' ∧
        r'.results = reorder order r.results ∧ r.SameCounts r') := by
  obtain ⟨hne, hlength, hproper, hresults, hr⟩ := results_eq_of_ok h
  refine ⟨?inForce, ?same, ?default, ?order⟩
  case inForce =>
    intro i m hm
    obtain ⟨spec, own, hforce, hown, hat⟩ := resolves_signatures h hm
    refine ⟨spec, own, hforce, hown, ?_⟩
    simp only [declare, List.getElem?_zipWith, hm, hat]
  case same =>
    calc (s.declare r.signatures).validate settings
        = .ok (.ofResults r.signature (judgeAll settings s.measures r.signatures)) :=
          validate_of_declared hne hlength hproper (signature_of_ok h)
      _ = .ok r := by rw [← hresults, ← hr]
  case default =>
    intro default hresolvable
    obtain ⟨own, hown⟩ := resolvable_iff.1 hresolvable
    exact ⟨_, validate_of_declared hne hlength hproper hown, hresults.symm⟩
  case order =>
    intro hstrict order horder
    have hperm : (reorder order r.results).Perm r.results :=
      reorder_perm (length_results_of_ok h ▸ horder)
    have hcounts : (Report.ofResults r.signature r.results).SameCounts
        (.ofResults r.signature (reorder order r.results)) := Report.sameCounts_of_perm hperm
    rw [← hr] at hcounts
    exact ⟨_, validate_reorder h hstrict horder, rfl, hcounts⟩

/-- The third measure, which has its signature from the second, comes first. -/
theorem validate_declare_of_carried :
    let s : Score := ofMeasures
      [.empty (.number 1) none, .empty (.number 2) (some (.text "3/4")), .empty (.number 3) none]
    ∃ r, s.validate .default = .ok r ∧ r.signatures = [⟨4, 4⟩, ⟨3, 4⟩, ⟨3, 4⟩] ∧
      (s.declare r.signatures).validate .default = .ok r ∧ Resolvable (some (.pair 6 8)) ∧
      (∃ r', ({ s.declare r.signatures with signature := some (.pair 6 8) } : Score).validate
          .default = .ok r' ∧ r'.results = r.results) ∧
      Settings.default.boundary = .strict ∧ [2, 0, 1].Perm (List.range s.measures.length) ∧
      ∃ r', (ofMeasures (reorder [2, 0, 1] (s.declare r.signatures).measures)).validate .default =
          .ok r' ∧
        r'.results = reorder [2, 0, 1] r.results ∧ r.SameCounts r' ∧ r'.results ≠ r.results := by
  intro s
  obtain ⟨r, hr⟩ : ∃ r, s.validate .default = .ok r := ⟨_, rfl⟩
  have hsignatures : r.signatures = [⟨4, 4⟩, ⟨3, 4⟩, ⟨3, 4⟩] := by
    cases hr
    rfl
  have hresolvable : Resolvable (some (.pair 6 8)) := resolvable_some.2 ⟨⟨6, 8⟩, rfl⟩
  have hstrict : Settings.default.boundary = .strict := rfl
  have hperm : [2, 0, 1].Perm (List.range s.measures.length) := by decide
  obtain ⟨-, hsame, hdefault, horder⟩ := validate_declare hr
  obtain ⟨r', hr', hresults, hcounts⟩ := horder hstrict [2, 0, 1] hperm
  refine ⟨r, hr, hsignatures, hsame, hresolvable, hdefault _ hresolvable, hstrict, hperm, r', hr',
    hresults, hcounts, ?_⟩
  rw [hresults]
  cases hr
  decide +kernel

end Score

end MeterCheck
