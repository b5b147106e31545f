import MeterCheck.Report.Run
import MeterCheck.Proofs.Decode.Ensures

/-!
# The signature of each measure

* `InForce`: which specification counts for a measure, told by indices alone;
* `carry_ok`: the signatures that are carried along a score resolve those specifications;
* `Score.validate_ok`: a report judges each measure in its place by the signature in force there.
-/

namespace MeterCheck

namespace Run

variable {α β : Type}

@[simp]
theorem value_pure (a : α) : (pure a : Run α).run.value = .ok a := rfl

theorem value_bind (x : Run α) (f : α → Run β) :
    (x >>= f).run.value = x.run.value >>= fun a => (f a).run.value := by
  rw [ExceptT.run_bind, Logged.value_bind]
  cases x.run.value <;> rfl

theorem value_bind_eq_ok {x : Run α} {f : α → Run β} {b : β} :
    (x >>= f).run.value = .ok b ↔ ∃ a, x.run.value = .ok a ∧ (f a).run.value = .ok b := by
  rw [value_bind, bind_eq_ok]

theorem value_resolve_eq_ok {spec : SignatureSpec} {s : TimeSignature} :
    (resolve spec).run.value = .ok s ↔ spec.resolve = .ok s := by
  change spec.resolve.mapError ScoreError.malformedSignature = .ok s ↔ _
  exact mapError_eq_ok

end Run

/-- The signature that a specification stands for, or common time where there is none. -/
def Resolves : Option SignatureSpec → TimeSignature → Prop
  | some spec, s => spec.resolve = .ok s
  | none, s => s = .common

theorem Resolves.unique {spec : Option SignatureSpec} {s s' : TimeSignature} (h : Resolves spec s)
    (h' : Resolves spec s') : s = s' := by
  cases spec with
  | some spec => exact Except.ok.inj (h.symm.trans h')
  | none => exact h.trans h'.symm

theorem resolveDefault_eq_ok {spec : Option SignatureSpec} {s : TimeSignature} :
    (resolveDefault spec).run.value = .ok s ↔ Resolves spec s := by
  cases spec with
  | some spec => exact Run.value_resolve_eq_ok
  | none => exact ⟨fun h => (Except.ok.inj h).symm, fun h => h ▸ rfl⟩

/--
The specification for measure `i`: that of the last measure up to there that has one, or the
default if no measure up to there has one.
-/
inductive InForce (default : Option SignatureSpec) (ms : List Measure) (i : Nat) :
    Option SignatureSpec → Prop where
  | own {k : Nat} {m : Measure} {spec : SignatureSpec} (le : k ≤ i) (at_k : ms[k]? = some m)
      (has : m.signature = some spec)
      (last : ∀ j m', k < j → j ≤ i → ms[j]? = some m' → m'.signature = none) :
      InForce default ms i (some spec)
  | default (none_has : ∀ j m', j ≤ i → ms[j]? = some m' → m'.signature = none) :
      InForce default ms i default

namespace InForce

variable {default : Option SignatureSpec} {m : Measure} {ms : List Measure} {i : Nat}
  {spec spec' : Option SignatureSpec}

theorem head : InForce default (m :: ms) 0 (m.signature.or default) := by
  cases hm : m.signature with
  | some own =>
    apply InForce.own (Nat.le_refl 0) rfl hm
    intro j _ hlt hle
    omega
  | none =>
    apply InForce.default
    intro j m' hle hj
    obtain rfl : j = 0 := by omega
    cases hj
    exact hm

/-- What counts after the first measure is what the first measure hands on. -/
theorem tail (h : InForce (m.signature.or default) ms i spec) :
    InForce default (m :: ms) (i + 1) spec := by
  cases h with
  | own le at_k has last =>
    apply InForce.own (Nat.succ_le_succ le) at_k has
    intro j m' hlt hle hj
    cases j with
    | zero => omega
    | succ j => exact last j m' (by omega) (by omega) hj
  | default none_has =>
    cases hm : m.signature with
    | some own =>
      apply InForce.own (Nat.zero_le _) rfl hm
      intro j m' hlt hle hj
      cases j with
      | zero => omega
      | succ j => exact none_has j m' (by omega) hj
    | none =>
      apply InForce.default
      intro j m' hle hj
      cases j with
      | zero =>
        cases hj
        exact hm
      | succ j => exact none_has j m' (by omega) hj

/-- Only one specification counts for a measure. -/
theorem unique (h : InForce default ms i spec) (h' : InForce default ms i spec') :
    spec = spec' := by
  cases h with
  | own le at_k has last =>
    cases h' with
    | own le' at_k' has' last' =>
      rename_i k _ _ k' _ _
      rcases Nat.lt_trichotomy k k' with hlt | rfl | hlt
      · rw [last k' _ hlt le' at_k'] at has'
        cases has'
      · rw [at_k] at at_k'
        cases at_k'
        exact has.symm.trans has'
      · rw [last' k _ hlt le at_k] at has
        cases has
    | default none_has =>
      rw [none_has _ _ le at_k] at has
      cases has
  | default none_has =>
    cases h' with
    | own le at_k has last =>
      rw [none_has _ _ le at_k] at has
      cases has
    | default => rfl

end InForce

section

variable {current : TimeSignature} {m : Measure} {ms : List Measure} {own : SignatureSpec}

/-- What is logged about a change of signature changes nothing. -/
theorem value_carry_rest (current next : TimeSignature) (m : Measure) (ms : List Measure) :
    (do
      if next ≠ current then Run.tell [.signatureChange m.id next]
      return next :: (← carry next ms) : Run (List TimeSignature)).run.value =
      (carry next ms).run.value.map (next :: ·) := by
  have hlast : (do return next :: (← carry next ms) : Run (List TimeSignature)).run.value =
      (carry next ms).run.value.map (next :: ·) := by
    rw [Run.value_bind]
    rfl
  split
  · rw [Run.value_bind]
    exact hlast
  · exact hlast

theorem value_carry_of_none (h : m.signature = none) :
    (carry current (m :: ms)).run.value = (carry current ms).run.value.map (current :: ·) := by
  rw [carry]
  simp only [h]
  exact value_carry_rest current current m ms

theorem value_carry_of_some (h : m.signature = some own) :
    (carry current (m :: ms)).run.value = (Run.resolve own).run.value >>= fun next =>
      (carry next ms).run.value.map (next :: ·) := by
  rw [carry]
  simp only [h]
  rw [Run.value_bind]
  simp only [value_carry_rest]

/-- One step: the first measure resolves what it hands on, and the rest carries that along. -/
theorem carry_cons_ok {default : Option SignatureSpec} {signatures : List TimeSignature}
    (hcurrent : Resolves default current)
    (h : (carry current (m :: ms)).run.value = .ok signatures) :
    ∃ next later, Resolves (m.signature.or default) next ∧
      (carry next ms).run.value = .ok later ∧ signatures = next :: later := by
  cases hm : m.signature with
  | none =>
    rw [value_carry_of_none hm] at h
    obtain ⟨later, hlater, rfl⟩ := map_eq_ok.1 h
    exact ⟨current, later, hcurrent, hlater, rfl⟩
  | some own =>
    rw [value_carry_of_some hm] at h
    obtain ⟨next, hown, h⟩ := bind_eq_ok.1 h
    obtain ⟨later, hlater, rfl⟩ := map_eq_ok.1 h
    exact ⟨next, later, Run.value_resolve_eq_ok.1 hown, hlater, rfl⟩

end

/-- Induction on the measures, where `current` resolves what is in force before the first one. -/
theorem carry_ok {default : Option SignatureSpec} {current : TimeSignature} {ms : List Measure}
    {signatures : List TimeSignature} (hcurrent : Resolves default current)
    (h : (carry current ms).run.value = .ok signatures) :
    signatures.length = ms.length ∧ ∀ i, i < ms.length →
      ∃ spec s, InForce default ms i spec ∧ Resolves spec s ∧ signatures[i]? = some s := by
  induction ms generalizing default current signatures with
  | nil =>
    cases h
    exact ⟨rfl, fun i hi => absurd hi (Nat.not_lt_zero i)⟩
  | cons m ms ih =>
    obtain ⟨next, later, hresolves, hlater, rfl⟩ := carry_cons_ok hcurrent h
    obtain ⟨hlength, hall⟩ := ih hresolves hlater
    refine ⟨congrArg (· + 1) hlength, ?_⟩
    intro i hi
    cases i with
    | zero => exact ⟨_, next, .head, hresolves, rfl⟩
    | succ i =>
      obtain ⟨spec, s, hforce, hs, hat⟩ := hall i (Nat.lt_of_succ_lt_succ hi)
      exact ⟨spec, s, hforce.tail, hs, hat⟩

/-- What is carried is told by the identifiers and by what the specifications resolve to. -/
theorem carry_congr {ms ms' : List Measure}
    (h : List.Forall₂ (fun m m' : Measure => m'.id = m.id ∧
      m'.signature.map SignatureSpec.resolve = m.signature.map SignatureSpec.resolve) ms ms')
    (current : TimeSignature) : carry current ms' = carry current ms := by
  induction h generalizing current with
  | nil => rfl
  | @cons m m' _ _ hm _ ih =>
    obtain ⟨hid, hsignature⟩ := hm
    cases hs : m.signature with
    | none =>
      rw [hs, Option.map_none, Option.map_eq_none_iff] at hsignature
      simp only [carry, hid, hs, hsignature, ih]
    | some own =>
      rw [hs, Option.map_some] at hsignature
      obtain ⟨own', hs', hresolve⟩ := Option.map_eq_some_iff.1 hsignature
      simp only [carry, hid, hs, hs', Run.resolve, hresolve, ih]

/-- Measures that are judged alike have the same results. -/
theorem judgeAll_congr {ms ms' : List Measure}
    (h : List.Forall₂ (fun m m' : Measure => m'.judge = m.judge) ms ms') (settings : Settings)
    (signatures : List TimeSignature) :
    judgeAll settings ms' signatures = judgeAll settings ms signatures := by
  have hlength := h.length_eq
  refine List.ext_getElem (by simp [judgeAll, hlength]) fun i hi' hi => ?_
  simp only [judgeAll, List.length_mapIdx, List.length_zip] at hi hi'
  have hjudge := (List.forall₂_iff_get.1 h).2 i (by omega) (by omega)
  simp only [List.get_eq_getElem] at hjudge
  simp only [judgeAll, List.getElem_mapIdx, List.getElem_zip, hlength, hjudge]

theorem length_judgeAll {settings : Settings} {ms : List Measure}
    {signatures : List TimeSignature} (h : signatures.length = ms.length) :
    (judgeAll settings ms signatures).length = ms.length := by
  simp [judgeAll, h]

theorem getElem?_judgeAll {settings : Settings} {ms : List Measure}
    {signatures : List TimeSignature} {i : Nat} {m : Measure} {s : TimeSignature}
    (hm : ms[i]? = some m) (hs : signatures[i]? = some s) :
    (judgeAll settings ms signatures)[i]? =
      some (m.judge s (settings.positionOf i ms.length) settings) := by
  rw [judgeAll, List.getElem?_mapIdx, List.zip, List.getElem?_zipWith, hm, hs]
  rfl

theorem map_signature_judgeAll {settings : Settings} {ms : List Measure}
    {signatures : List TimeSignature} (h : signatures.length = ms.length) :
    (judgeAll settings ms signatures).map MeasureResult.signature = signatures := by
  apply List.ext_getElem
  · rw [List.length_map, length_judgeAll h, h]
  · intro i _ _
    simp [judgeAll, Measure.judge]

namespace Score

/-- A score has a report if it has measures and all its signatures resolve. -/
theorem run_eq_ok {s : Score} {settings : Settings} {r : Report} :
    (s.run settings).run.value = .ok r ↔ ∃ signature signatures, Resolves s.signature signature ∧
      s.measures ≠ [] ∧ (carry signature s.measures).run.value = .ok signatures ∧
      r = Report.ofResults signature (judgeAll settings s.measures signatures) := by
  rw [run, Run.value_bind_eq_ok]
  dsimp only
  by_cases hempty : s.measures.isEmpty = true
  · have hnil : s.measures = [] := List.isEmpty_iff.1 hempty
    simp only [hempty, ↓reduceIte, Run.value_bind_eq_ok]
    constructor
    · rintro ⟨_, _, _, hthrow, _⟩
      cases hthrow
    · rintro ⟨_, _, _, hne, _⟩
      exact absurd hnil hne
  · have hne : s.measures ≠ [] := fun hnil => hempty (List.isEmpty_iff.2 hnil)
    simp only [hempty, Bool.false_eq_true, ↓reduceIte, Run.value_bind_eq_ok, Run.value_pure,
      Except.ok.injEq]
    constructor
    · rintro ⟨signature, hsignature, signatures, hsignatures, _, _, _, _, _, _, rfl⟩
      exact ⟨signature, signatures, resolveDefault_eq_ok.1 hsignature, hne, hsignatures, rfl⟩
    · rintro ⟨signature, signatures, hsignature, _, hsignatures, rfl⟩
      exact ⟨signature, resolveDefault_eq_ok.2 hsignature, signatures, hsignatures,
        (), rfl, (), rfl, (), rfl, rfl⟩

section

variable {s : Score} {settings : Settings} {r : Report}

theorem signature_of_ok (h : s.validate settings = .ok r) : Resolves s.signature r.signature := by
  obtain ⟨signature, signatures, hdefault, _, _, rfl⟩ := run_eq_ok.1 h
  exact hdefault

theorem length_results_of_ok (h : s.validate settings = .ok r) :
    r.results.length = s.measures.length := by
  obtain ⟨signature, signatures, hdefault, _, hcarry, rfl⟩ := run_eq_ok.1 h
  exact length_judgeAll (carry_ok hdefault hcarry).1

theorem total_of_ok (h : s.validate settings = .ok r) : r.total = s.measures.length := by
  rw [← length_results_of_ok h]
  obtain ⟨signature, signatures, _, _, _, rfl⟩ := run_eq_ok.1 h
  rfl

/-- The result in each place is that of the measure there under the signature in force. -/
theorem result_of_ok (h : s.validate settings = .ok r) {i : Nat} {m : Measure}
    (hm : s.measures[i]? = some m) : ∃ spec signature,
      InForce s.signature s.measures i spec ∧ Resolves spec signature ∧
      r.results[i]? =
        some (m.judge signature (settings.positionOf i s.measures.length) settings) := by
  obtain ⟨signature, signatures, hdefault, _, hcarry, rfl⟩ := run_eq_ok.1 h
  obtain ⟨hi, _⟩ := List.getElem?_eq_some_iff.1 hm
  obtain ⟨spec, own, hforce, hown, hat⟩ := (carry_ok hdefault hcarry).2 i hi
  exact ⟨spec, own, hforce, hown, getElem?_judgeAll hm hat⟩

theorem ids_of_ok (h : s.validate settings = .ok r) :
    r.results.map MeasureResult.id = s.measures.map Measure.id := by
  refine List.ext_getElem? fun i => ?_
  rw [List.getElem?_map, List.getElem?_map]
  cases hm : s.measures[i]? with
  | none =>
    have hlength := length_results_of_ok h
    have hnone : r.results[i]? = none :=
      List.getElem?_eq_none (hlength ▸ List.getElem?_eq_none_iff.1 hm)
    rw [hnone]
    rfl
  | some m =>
    obtain ⟨_, _, _, _, hresult⟩ := result_of_ok h hm
    rw [hresult]
    rfl

end

/--
**Every measure is judged by the signature in force.** A report has the default signature of its
score and one result for each measure, in order, judged at its own position.
-/
theorem validate_ok {s : Score} {settings : Settings} {r : Report}
    (h : s.validate settings = .ok r) :
    Resolves s.signature r.signature ∧ r.results.length = s.measures.length ∧
      ∀ i m, s.measures[i]? = some m → ∃ spec signature,
        InForce s.signature s.measures i spec ∧ Resolves spec signature ∧
        r.results[i]? =
          some (m.judge signature (settings.positionOf i s.measures.length) settings) :=
  ⟨signature_of_ok h, length_results_of_ok h, fun _ _ hm => result_of_ok h hm⟩

/-- The third measure has the signature of the second, while the report has that of the score. -/
theorem validate_ok_of_change :
    let change : Measure := .empty (.number 2) (some (.pair 3 4))
    let s : Score := .ofMeasures [.empty (.number 1) none, change, .empty (.number 3) none]
    ∃ r, s.validate .default = .ok r ∧ r.signature = .common ∧ r.results.length = 3 ∧
      InForce none s.measures 2 (some (.pair 3 4)) ∧
      r.results[2]? = some ((Measure.empty (.number 3) none).judge ⟨3, 4⟩ .middle .default) := by
  intro change s
  obtain ⟨r, hr⟩ : ∃ r, s.validate .default = .ok r := ⟨_, rfl⟩
  obtain ⟨hdefault, hlength, hall⟩ := validate_ok hr
  obtain ⟨spec, signature, hforce, hresolves, hresult⟩ := hall 2 _ rfl
  have hown : InForce none s.measures 2 (some (.pair 3 4)) := by
    refine .own (k := 1) (by decide) rfl rfl ?_
    intro j m' hlt hle hj
    obtain rfl : j = 2 := by omega
    cases hj
    rfl
  cases hforce.unique hown
  cases hresolves
  exact ⟨r, hr, hdefault, hlength, hown, hresult⟩

end Score

end MeterCheck
