import MeterCheck.Proofs.Report.Carry

/-!
# What an edit changes

* `InForce.of_agree`, `InForce.of_override`: the specification for a measure is told by the
  measures up to it, and by those from the last override on;
* `Score.EditAt`: two scores that differ in one measure;
* `Score.validate_edit`: the results that such a difference does not reach.
-/

namespace MeterCheck

/-- What stands in that place of both lists has the same signature of its own. -/
def SameSignature (ms ms' : List Measure) (i : Nat) : Prop :=
  (ms[i]?).map Measure.signature = (ms'[i]?).map Measure.signature

theorem SameSignature.of_eq {ms ms' : List Measure} {i : Nat} (h : ms'[i]? = ms[i]?) :
    SameSignature ms ms' i := by
  rw [SameSignature, h]

theorem SameSignature.symm {ms ms' : List Measure} {i : Nat} (h : SameSignature ms ms' i) :
    SameSignature ms' ms i :=
  Eq.symm h

theorem SameSignature.exists_left {ms ms' : List Measure} {i : Nat} (h : SameSignature ms ms' i)
    {m' : Measure} (hm : ms'[i]? = some m') :
    ∃ m, ms[i]? = some m ∧ m.signature = m'.signature := by
  rw [SameSignature, hm] at h
  exact Option.map_eq_some_iff.1 h

namespace InForce

variable {default default' : Option SignatureSpec} {ms ms' : List Measure} {i j k : Nat}
  {m : Measure} {own : SignatureSpec} {spec : Option SignatureSpec}

/-- From the measure that sets the specification on, later measures have none of their own. -/
theorem own_of_agree (le : k ≤ i) (at_k : ms[k]? = some m) (has : m.signature = some own)
    (last : ∀ l m', k < l → l ≤ i → ms[l]? = some m' → m'.signature = none)
    (hsame : ∀ l, k ≤ l → l ≤ i → SameSignature ms ms' l) :
    InForce default ms' i (some own) := by
  obtain ⟨m', hm', hsignature⟩ := (hsame k (Nat.le_refl k) le).symm.exists_left at_k
  refine .own le hm' (hsignature.trans has) ?_
  intro l n' hlt hle hn'
  obtain ⟨n, hn, hnone⟩ := (hsame l (Nat.le_of_lt hlt) hle).exists_left hn'
  exact hnone ▸ last l n hlt hle hn

/-- Later measures do not count. -/
theorem of_agree (h : InForce default ms i spec) (hsame : ∀ l, l ≤ i → SameSignature ms ms' l) :
    InForce default ms' i spec := by
  cases h with
  | own le at_k has last => exact own_of_agree le at_k has last fun l _ hle => hsame l hle
  | default none_has =>
    apply InForce.default
    intro l m' hle hm'
    obtain ⟨m, hm, hnone⟩ := (hsame l hle).exists_left hm'
    exact hnone ▸ none_has l m hle hm

/-- Neither do measures before an override, nor does the default. -/
theorem of_override (h : InForce default ms i spec) (hj : j ≤ i) (hm : ms[j]? = some m)
    (hown : m.signature = some own) (hsame : ∀ l, j ≤ l → l ≤ i → SameSignature ms ms' l) :
    InForce default' ms' i spec := by
  cases h with
  | own le at_k has last =>
    rename_i k _ _
    apply own_of_agree le at_k has last
    intro l hkl hle
    rcases Nat.lt_or_ge k j with hlt | hge
    · have hnone := last j m hlt hj hm
      rw [hown] at hnone
      cases hnone
    · exact hsame l (Nat.le_trans hge hkl) hle
  | default none_has =>
    have hnone := none_has j m hj hm
    rw [hown] at hnone
    cases hnone

end InForce

namespace Score

/-- Scores with one default and equally many measures, which may differ in measure `k` alone. -/
structure EditAt (k : Nat) (s s' : Score) : Prop where
  signature : s'.signature = s.signature
  length : s'.measures.length = s.measures.length
  rest : ∀ i, i ≠ k → s'.measures[i]? = s.measures[i]?

variable {s s' : Score} {settings : Settings} {r r' : Report} {i k : Nat}

theorem EditAt.sameSignature (edit : EditAt k s s') (hi : i ≠ k) :
    SameSignature s.measures s'.measures i :=
  .of_eq (edit.rest i hi)

/-- A result depends on its own measure and on the specification in force there. -/
theorem EditAt.result_eq (edit : EditAt k s s') (h : s.validate settings = .ok r)
    (h' : s'.validate settings = .ok r') (hi : i ≠ k)
    (hforce : ∀ spec, InForce s.signature s.measures i spec →
      InForce s'.signature s'.measures i spec) :
    r'.results[i]? = r.results[i]? := by
  cases hm : s.measures[i]? with
  | none =>
    have hlength : s.measures.length ≤ i := List.getElem?_eq_none_iff.1 hm
    rw [List.getElem?_eq_none, List.getElem?_eq_none]
    · rwa [length_results_of_ok h]
    · rwa [length_results_of_ok h', edit.length]
  | some m =>
    obtain ⟨spec, signature, hspec, hresolves, hat⟩ := result_of_ok h hm
    obtain ⟨spec', signature', hspec', hresolves', hat'⟩ :=
      result_of_ok h' ((edit.rest i hi).trans hm)
    cases (hforce spec hspec).unique hspec'
    rw [hat, hat', edit.length, hresolves.unique hresolves']

/--
**An edit affects only what it governs.** Two scores that differ in measure `k` alone have equal
results before it, and from the next measure on that has a signature of its own. If measure `k`
has the same signature in both, or has none, all other results are equal. The default signature
and the number of measures in the report are the same.
-/
theorem validate_edit (edit : EditAt k s s') (h : s.validate settings = .ok r)
    (h' : s'.validate settings = .ok r') :
    (∀ i, i < k → r'.results[i]? = r.results[i]?) ∧
      (∀ j m own, k < j → s.measures[j]? = some m → m.signature = some own →
        ∀ i, j ≤ i → r'.results[i]? = r.results[i]?) ∧
      (SameSignature s.measures s'.measures k →
        ∀ i, i ≠ k → r'.results[i]? = r.results[i]?) ∧
      r'.signature = r.signature ∧ r'.total = r.total := by
  refine ⟨?before, ?after, ?same, ?_, ?_⟩
  case before =>
    intro i hi
    apply edit.result_eq h h' (Nat.ne_of_lt hi)
    intro spec hspec
    rw [edit.signature]
    exact hspec.of_agree fun l hl => edit.sameSignature (by omega)
  case after =>
    intro j m own hj hm hown i hi
    apply edit.result_eq h h' (by omega)
    intro spec hspec
    exact hspec.of_override hi hm hown fun l hl _ => edit.sameSignature (by omega)
  case same =>
    intro hk i hi
    apply edit.result_eq h h' hi
    intro spec hspec
    rw [edit.signature]
    apply hspec.of_agree
    intro l _
    by_cases hl : l = k
    · exact hl ▸ hk
    · exact edit.sameSignature hl
  · have hdefault := signature_of_ok h'
    rw [edit.signature] at hdefault
    exact hdefault.unique (signature_of_ok h)
  · rw [total_of_ok h, total_of_ok h', edit.length]

/-- The second of four measures gets a signature; the fourth has one of its own. -/
theorem validate_edit_of_override :
    let first : Measure := .empty (.number 1) none
    let third : Measure := .empty (.number 3) none
    let fourth : Measure := .empty (.number 4) (some (.text "6/8"))
    let s : Score := .ofMeasures [first, .empty (.number 2) none, third, fourth]
    let s' : Score := .ofMeasures [first, .empty (.number 2) (some (.pair 3 4)), third, fourth]
    EditAt 1 s s' ∧ ∃ r r', s.validate .default = .ok r ∧ s'.validate .default = .ok r' ∧
      r'.results[0]? = r.results[0]? ∧ r'.results[2]? ≠ r.results[2]? ∧
      r'.results[3]? = r.results[3]? ∧ r'.signature = r.signature ∧ r'.total = r.total := by
  intro first third fourth s s'
  have edit : EditAt 1 s s' := by
    refine ⟨rfl, rfl, ?_⟩
    intro i hi
    rcases i with _ | _ | i
    · rfl
    · exact absurd rfl hi
    · rfl
  obtain ⟨r, hr⟩ : ∃ r, s.validate .default = .ok r := ⟨_, rfl⟩
  obtain ⟨r', hr'⟩ : ∃ r, s'.validate .default = .ok r := ⟨_, rfl⟩
  obtain ⟨hbefore, hafter, -, hsignature, htotal⟩ := validate_edit edit hr hr'
  refine ⟨edit, r, r', hr, hr', hbefore 0 (by decide), ?_,
    hafter 3 fourth (.text "6/8") (by decide) rfl rfl 3 (Nat.le_refl 3), hsignature, htotal⟩
  cases hr
  cases hr'
  decide +kernel

end Score

end MeterCheck
