import MeterCheck.Proofs.TimeSignature.Resolve

/-!
# Scores in two parts

* `carry_append_eq_ok`: what is carried along two lists of measures, one after the other;
* `judgeAll_of_strict`: by the strict rule a result depends on its measure and its signature alone;
* `EndsIn`: the signature in force in the last measure of a list;
* `Score.validate_append`: a strict report on two parts is put together from the report on the first
  part and the report on the second, whose default is the signature in which the first part ends.
-/

namespace MeterCheck

/-! ## Signatures -/

/-- The signature of a measure that comes after one with the signature `current`. -/
def Measure.Follows (m : Measure) (current next : TimeSignature) : Prop :=
  match m.signature with
  | some own => own.resolve = .ok next
  | none => next = current

section

variable {current : TimeSignature} {m : Measure} {ms xs ys : List Measure}
  {signatures : List TimeSignature} {settings : Settings}

theorem carry_cons_eq_ok : (carry current (m :: ms)).run.value = .ok signatures ↔
    ∃ next later, m.Follows current next ∧ (carry next ms).run.value = .ok later ∧
      signatures = next :: later := by
  unfold Measure.Follows
  cases hm : m.signature with
  | none =>
    rw [value_carry_of_none hm, map_eq_ok]
    constructor
    · rintro ⟨later, hlater, rfl⟩
      exact ⟨current, later, rfl, hlater, rfl⟩
    · rintro ⟨next, later, rfl, hlater, rfl⟩
      exact ⟨later, hlater, rfl⟩
  | some own =>
    simp only [value_carry_of_some hm, bind_eq_ok, map_eq_ok, Run.value_resolve_eq_ok]
    constructor
    · rintro ⟨next, hnext, later, hlater, rfl⟩
      exact ⟨next, later, hnext, hlater, rfl⟩
    · rintro ⟨next, later, hnext, hlater, rfl⟩
      exact ⟨next, hnext, later, hlater, rfl⟩

/-- The second list goes on with the last signature of the first, by induction on the first. -/
theorem carry_append_eq_ok : (carry current (xs ++ ys)).run.value = .ok signatures ↔
    ∃ before after, (carry current xs).run.value = .ok before ∧
      (carry (before.getLastD current) ys).run.value = .ok after ∧
      signatures = before ++ after := by
  induction xs generalizing current signatures with
  | nil =>
    constructor
    · intro h
      exact ⟨[], signatures, rfl, h, rfl⟩
    · rintro ⟨before, after, hbefore, hafter, rfl⟩
      cases hbefore
      exact hafter
  | cons m xs ih =>
    rw [List.cons_append, carry_cons_eq_ok]
    constructor
    · rintro ⟨next, later, hnext, hlater, rfl⟩
      obtain ⟨before, after, hbefore, hafter, rfl⟩ := ih.1 hlater
      rw [← List.getLastD_cons] at hafter
      exact ⟨next :: before, after, carry_cons_eq_ok.2 ⟨next, before, hnext, hbefore, rfl⟩,
        hafter, rfl⟩
    · rintro ⟨before, after, hbefore, hafter, rfl⟩
      obtain ⟨next, later, hnext, hlater, rfl⟩ := carry_cons_eq_ok.1 hbefore
      rw [List.getLastD_cons] at hafter
      exact ⟨next, later ++ after, hnext, ih.2 ⟨later, after, hlater, hafter, rfl⟩, rfl⟩

theorem Settings.positionOf_of_strict (h : settings.boundary = .strict) (index count : Nat) :
    settings.positionOf index count = .middle := by
  rw [positionOf, h]

/-- By the strict rule the place of a measure in its score does not count. -/
theorem judgeAll_of_strict (h : settings.boundary = .strict) (ms : List Measure)
    (signatures : List TimeSignature) : judgeAll settings ms signatures =
      List.zipWith (fun m s => m.judge s .middle settings) ms signatures := by
  apply List.ext_getElem
  · simp [judgeAll]
  · intro i _ _
    simp only [judgeAll, List.getElem_mapIdx, List.getElem_zip, List.getElem_zipWith,
      Settings.positionOf_of_strict h]

theorem judgeAll_append (h : settings.boundary = .strict) {before after : List TimeSignature}
    (hlength : before.length = xs.length) : judgeAll settings (xs ++ ys) (before ++ after) =
      judgeAll settings xs before ++ judgeAll settings ys after := by
  simp only [judgeAll_of_strict h, List.zipWith_append hlength.symm]

end

/-- The signature in force in the last of the measures. -/
def EndsIn (default : Option SignatureSpec) (ms : List Measure) (last : TimeSignature) : Prop :=
  ∃ spec, InForce default ms (ms.length - 1) spec ∧ Resolves spec last

theorem EndsIn.unique {default : Option SignatureSpec} {ms : List Measure}
    {last last' : TimeSignature} (h : EndsIn default ms last) (h' : EndsIn default ms last') :
    last = last' := by
  obtain ⟨spec, hforce, hlast⟩ := h
  obtain ⟨spec', hforce', hlast'⟩ := h'
  cases hforce.unique hforce'
  exact hlast.unique hlast'

/-- What is carried to the end is what is in force there. -/
theorem endsIn_of_carry {default : Option SignatureSpec} {current : TimeSignature}
    {ms : List Measure} {signatures : List TimeSignature} (hcurrent : Resolves default current)
    (h : (carry current ms).run.value = .ok signatures) (hne : ms ≠ []) :
    EndsIn default ms (signatures.getLastD current) := by
  obtain ⟨hlength, hall⟩ := carry_ok hcurrent h
  have hpos : 0 < ms.length := List.length_pos_iff.2 hne
  obtain ⟨spec, last, hforce, hlast, hat⟩ := hall (ms.length - 1) (by omega)
  rw [← hlength, ← List.getLast?_eq_getElem?] at hat
  have heq : signatures.getLastD current = last := by
    rw [List.getLastD_eq_getLast?, hat]
    rfl
  exact ⟨spec, hforce, heq ▸ hlast⟩

/-! ## Reports -/

theorem deviations_append (xs ys : List MeasureResult) :
    deviations (xs ++ ys) = deviations xs ++ deviations ys := by
  simp only [deviations, List.filter_append, List.flatMap_append]

namespace Report

/-- A report that puts two others together; only the averages are not told by those of the two. -/
structure Joins (x y r : Report) : Prop where
  signature : r.signature = x.signature
  results : r.results = x.results ++ y.results
  total : r.total = x.total + y.total
  valid : r.valid = x.valid + y.valid
  invalid : r.invalid = x.invalid + y.invalid
  allValid : r.allValid = (x.allValid && y.allValid)
  validVoices : ∀ hand, r.validVoices.get hand = x.validVoices.get hand + y.validVoices.get hand
  describeInvalid : r.describeInvalid = x.describeInvalid ++ y.describeInvalid

theorem joins_ofResults (signature signature' : TimeSignature) (xs ys : List MeasureResult) :
    (ofResults signature xs).Joins (ofResults signature' ys) (ofResults signature (xs ++ ys)) := by
  have hx : xs.countP (fun r => r.bothValid) ≤ xs.length := List.countP_le_length
  have hy : ys.countP (fun r => r.bothValid) ≤ ys.length := List.countP_le_length
  have hinvalid : (ofResults signature (xs ++ ys)).invalid =
      (ofResults signature xs).invalid + (ofResults signature' ys).invalid := by
    simp only [ofResults, List.length_append, List.countP_append]
    omega
  constructor
  case invalid => exact hinvalid
  case allValid =>
    change ((ofResults signature (xs ++ ys)).invalid == 0) = _
    rw [hinvalid, Bool.eq_iff_iff]
    simp only [ofResults, Bool.and_eq_true, beq_iff_eq, Nat.add_eq_zero_iff]
  case validVoices =>
    intro hand
    simp only [ofResults, Hands.get_ofFn, List.countP_append]
  case describeInvalid =>
    simp only [describeInvalid, Report.deviations, ofResults, deviations_append, List.map_append]
  case total => exact List.length_append
  case valid => exact List.countP_append
  all_goals rfl

end Report

/-! ## Scores -/

namespace Score

variable {s : Score} {xs ys : List Measure} {settings : Settings} {r before after : Report}

/-- Two parts that have reports, joined. -/
theorem validate_append_eq_ok (hxs : xs ≠ []) (hstrict : settings.boundary = .strict)
    (hbefore : ({ s with measures := xs } : Score).validate settings = .ok before)
    {last : TimeSignature} (hlast : EndsIn s.signature xs last)
    (hafter : ({ s with signature := some (.ofSignature last), measures := ys } : Score).validate
      settings = .ok after) :
    ({ s with measures := xs ++ ys } : Score).validate settings =
      .ok (.ofResults before.signature (before.results ++ after.results)) := by
  obtain ⟨signature, first, hdefault, -, hfirst, rfl⟩ := run_eq_ok.1 hbefore
  obtain ⟨own, second, hown, -, hsecond, rfl⟩ := run_eq_ok.1 hafter
  have hends : first.getLastD signature = last := (endsIn_of_carry hdefault hfirst hxs).unique hlast
  have hsame : own = last := by
    obtain ⟨spec, -, hresolves⟩ := hlast
    exact hown.unique (SignatureSpec.resolve_ofSignature hresolves.proper)
  rw [hsame, ← hends] at hsecond
  have hcarry := carry_append_eq_ok.2 ⟨first, second, hfirst, hsecond, rfl⟩
  have hne : xs ++ ys ≠ [] := List.append_ne_nil_of_left_ne_nil hxs ys
  refine run_eq_ok.2 ⟨signature, first ++ second, hdefault, hne, hcarry, ?_⟩
  rw [judgeAll_append hstrict (carry_ok hdefault hfirst).1]
  rfl

/-- A score that has a report, parted. -/
theorem exists_of_validate_append (hxs : xs ≠ []) (hys : ys ≠ [])
    (h : ({ s with measures := xs ++ ys } : Score).validate settings = .ok r) :
    ∃ before last after, ({ s with measures := xs } : Score).validate settings = .ok before ∧
      EndsIn s.signature xs last ∧
      ({ s with signature := some (.ofSignature last), measures := ys } : Score).validate
        settings = .ok after := by
  obtain ⟨signature, _, hdefault, -, hcarry, -⟩ := run_eq_ok.1 h
  obtain ⟨first, second, hfirst, hsecond, -⟩ := carry_append_eq_ok.1 hcarry
  have hends := endsIn_of_carry hdefault hfirst hxs
  have hown : Resolves (some (.ofSignature (first.getLastD signature)))
      (first.getLastD signature) := by
    obtain ⟨spec, -, hresolves⟩ := hends
    exact SignatureSpec.resolve_ofSignature hresolves.proper
  exact ⟨_, _, _, run_eq_ok.2 ⟨signature, first, hdefault, hxs, hfirst, rfl⟩, hends,
    run_eq_ok.2 ⟨_, second, hown, hys, hsecond, rfl⟩⟩

/--
**A strict report is put together from its parts.** Two parts make a score that has a report exactly
if the first part has one, and the second part has one under the signature in which the first part
ends. The results and the lines about deviations of both parts follow each other, and all counts
are sums.
-/
theorem validate_append (hxs : xs ≠ []) (hys : ys ≠ []) (hstrict : settings.boundary = .strict) :
    ((∃ r, ({ s with measures := xs ++ ys } : Score).validate settings = .ok r) ↔
      ∃ before last after, ({ s with measures := xs } : Score).validate settings = .ok before ∧
        EndsIn s.signature xs last ∧
        ({ s with signature := some (.ofSignature last), measures := ys } : Score).validate
          settings = .ok after) ∧
    ∀ before last after r, ({ s with measures := xs } : Score).validate settings = .ok before →
      EndsIn s.signature xs last →
      ({ s with signature := some (.ofSignature last), measures := ys } : Score).validate
        settings = .ok after →
      ({ s with measures := xs ++ ys } : Score).validate settings = .ok r →
      before.Joins after r := by
  refine ⟨⟨?parted, ?joined⟩, ?counts⟩
  case parted =>
    rintro ⟨r, hr⟩
    exact exists_of_validate_append hxs hys hr
  case joined =>
    rintro ⟨before, last, after, hbefore, hlast, hafter⟩
    exact ⟨_, validate_append_eq_ok hxs hstrict hbefore hlast hafter⟩
  case counts =>
    intro before last after r hbefore hlast hafter hr
    have hjoined := validate_append_eq_ok hxs hstrict hbefore hlast hafter
    cases hr.symm.trans hjoined
    obtain ⟨_, _, _, _, _, rfl⟩ := run_eq_ok.1 hbefore
    obtain ⟨_, _, _, _, _, rfl⟩ := run_eq_ok.1 hafter
    exact Report.joins_ofResults _ _ _ _

/-- The second part has the signature of the last measure of the first, not that of the score. -/
theorem validate_append_of_change :
    let s : Score := { ofMeasures [] with signature := some (.text "2/4") }
    let first : List Measure := [.empty (.number 1) none, .empty (.number 2) (some (.pair 3 4))]
    let second : List Measure :=
      [⟨.number 3, none, ⟨[⟨["C4"], .piece (.product 3 "quarter")⟩], []⟩⟩]
    first ≠ [] ∧ second ≠ [] ∧ Settings.default.boundary = .strict ∧
      EndsIn s.signature first ⟨3, 4⟩ ∧ ∃ before after r,
        ({ s with measures := first } : Score).validate .default = .ok before ∧
        ({ s with signature := some (.pair 3 4), measures := second } : Score).validate .default =
          .ok after ∧
        ({ s with measures := first ++ second } : Score).validate .default = .ok r ∧
        before.Joins after r ∧ r.total = 3 ∧ r.validVoices = ⟨1, 0⟩ := by
  intro s first second
  have hfirst : first ≠ [] := List.cons_ne_nil _ _
  have hsecond : second ≠ [] := List.cons_ne_nil _ _
  have hstrict : Settings.default.boundary = .strict := rfl
  have hends : EndsIn s.signature first ⟨3, 4⟩ := by
    refine ⟨some (.pair 3 4), .own (k := 1) (Nat.le_refl 1) rfl rfl ?_, rfl⟩
    intro j _ hlt hle
    change j ≤ 1 at hle
    omega
  obtain ⟨hiff, hjoins⟩ := validate_append (s := s) hfirst hsecond hstrict
  obtain ⟨before, hbefore⟩ :
      ∃ r, ({ s with measures := first } : Score).validate .default = .ok r := ⟨_, rfl⟩
  obtain ⟨after, hafter⟩ : ∃ r, ({ s with signature := some (.pair 3 4), measures := second } :
    Score).validate .default = .ok r := ⟨_, rfl⟩
  obtain ⟨r, hr⟩ := hiff.2 ⟨before, ⟨3, 4⟩, after, hbefore, hends, hafter⟩
  have hjoined := hjoins before ⟨3, 4⟩ after r hbefore hends hafter hr
  refine ⟨hfirst, hsecond, hstrict, hends, before, after, r, hbefore, hafter, hr, hjoined, ?_, ?_⟩
  · cases hr
    rfl
  · cases hr
    decide +kernel

end Score

end MeterCheck
