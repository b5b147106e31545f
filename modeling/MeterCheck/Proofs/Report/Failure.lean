import MeterCheck.Proofs.Report.Revise
import MeterCheck.Proofs.TimeSignature.Resolve

/-!
# When a score has no report

* `Resolvable`: a specification that stands for a signature, if there is one;
* `FirstFault`: the first measure whose own signature does not resolve, which ends the run;
* `Score.Fails`: the error of a score, told by its signatures alone;
* `Score.validate_fails_iff`: a score has a report or that error, whatever its events are.
-/

namespace MeterCheck

/-- Where there is a specification, it stands for a signature. -/
def Resolvable (spec : Option SignatureSpec) : Prop :=
  ∀ own ∈ spec, ∃ signature, own.resolve = .ok signature

section

variable {own : SignatureSpec} {spec : Option SignatureSpec} {fault : SignatureFault}
  {e : ScoreError}

theorem resolvable_none : Resolvable none := nofun

theorem resolvable_some : Resolvable (some own) ↔ ∃ signature, own.check = .ok signature := by
  simp [Resolvable, SignatureSpec.resolve_eq_ok]

theorem not_resolvable_of_check (h : own.check = .error fault) : ¬ Resolvable (some own) := by
  rw [resolvable_some, h]
  rintro ⟨signature, ⟨⟩⟩

theorem resolvable_iff : Resolvable spec ↔ ∃ signature, Resolves spec signature := by
  cases spec with
  | none => exact ⟨fun _ => ⟨.common, rfl⟩, fun _ => resolvable_none⟩
  | some own => simp [Resolvable, Resolves]

theorem Run.value_resolve_eq_error : (Run.resolve own).run.value = .error e ↔
    ∃ fault, own.check = .error fault ∧ e = .malformedSignature ⟨own.input, fault⟩ := by
  change own.resolve.mapError ScoreError.malformedSignature = .error e ↔ _
  rw [mapError_eq_error]
  constructor
  · rintro ⟨⟨input, fault⟩, hresolve, rfl⟩
    obtain ⟨rfl, hfault⟩ := SignatureSpec.resolve_eq_error.1 hresolve
    exact ⟨fault, hfault, rfl⟩
  · rintro ⟨fault, hfault, rfl⟩
    exact ⟨_, SignatureSpec.resolve_eq_error.2 ⟨rfl, hfault⟩, rfl⟩

theorem resolveDefault_eq_error : (resolveDefault spec).run.value = .error e ↔
    ∃ own fault, spec = some own ∧ own.check = .error fault ∧
      e = .malformedSignature ⟨own.input, fault⟩ := by
  cases spec with
  | none => exact ⟨nofun, nofun⟩
  | some own =>
    rw [resolveDefault, Run.value_resolve_eq_error]
    simp

end

/-! ## The signatures of the measures -/

/-- The first measure whose own signature does not resolve, with what is wrong with it. -/
inductive FirstFault (ms : List Measure) (own : SignatureSpec) (fault : SignatureFault) :
    Prop where
  | intro {before : List Measure} {m : Measure} {after : List Measure}
      (split : ms = before ++ m :: after) (sound : ∀ b ∈ before, Resolvable b.signature)
      (has : m.signature = some own) (faulty : own.check = .error fault) : FirstFault ms own fault

section

variable {current : TimeSignature} {m : Measure} {ms : List Measure} {own : SignatureSpec}
  {fault : SignatureFault} {e : ScoreError}

theorem FirstFault.not_nil : ¬ FirstFault [] own fault := by
  rintro ⟨split, -, -, -⟩
  exact List.append_ne_nil_of_right_ne_nil _ (List.cons_ne_nil _ _) split.symm

theorem firstFault_of_faulty {own' : SignatureSpec} {fault' : SignatureFault}
    (has : m.signature = some own) (faulty : own.check = .error fault) :
    FirstFault (m :: ms) own' fault' ↔ own' = own ∧ fault' = fault := by
  constructor
  · rintro ⟨split, sound, has', faulty'⟩
    rename_i before m' after
    cases before with
    | nil =>
      cases split
      cases has.symm.trans has'
      cases faulty.symm.trans faulty'
      exact ⟨rfl, rfl⟩
    | cons b before =>
      cases split
      exact (not_resolvable_of_check faulty (has ▸ sound m List.mem_cons_self)).elim
  · rintro ⟨rfl, rfl⟩
    have split : m :: ms = [] ++ m :: ms := rfl
    exact .intro split nofun has faulty

theorem firstFault_of_resolvable (h : Resolvable m.signature) :
    FirstFault (m :: ms) own fault ↔ FirstFault ms own fault := by
  constructor
  · rintro ⟨split, sound, has, faulty⟩
    rename_i before m' after
    cases before with
    | nil =>
      cases split
      exact (not_resolvable_of_check faulty (has ▸ h)).elim
    | cons b before =>
      cases split
      exact .intro rfl (List.forall_mem_cons.1 sound).2 has faulty
  · rintro ⟨rfl, sound, has, faulty⟩
    exact .intro (List.cons_append).symm (List.forall_mem_cons.2 ⟨h, sound⟩) has faulty

theorem map_eq_error {α β ε : Type} {x : Except ε α} {f : α → β} {e : ε} :
    x.map f = .error e ↔ x = .error e := by
  cases x <;> simp [Except.map]

/-- Later measures are not looked at: by induction on the measures, whatever is carried there. -/
theorem carry_eq_error : (carry current ms).run.value = .error e ↔
    ∃ own fault, FirstFault ms own fault ∧ e = .malformedSignature ⟨own.input, fault⟩ := by
  induction ms generalizing current with
  | nil =>
    refine ⟨nofun, ?_⟩
    rintro ⟨own, fault, hfault, -⟩
    exact (FirstFault.not_nil hfault).elim
  | cons m ms ih =>
    cases hm : m.signature with
    | none =>
      have hsound : Resolvable m.signature := hm ▸ resolvable_none
      simp only [value_carry_of_none hm, map_eq_error, ih, firstFault_of_resolvable hsound]
    | some own =>
      rw [value_carry_of_some hm]
      cases hcheck : own.check with
      | ok next =>
        have hsound : Resolvable m.signature := hm ▸ resolvable_some.2 ⟨next, hcheck⟩
        rw [Run.value_resolve_eq_ok.2 (SignatureSpec.resolve_eq_ok.2 hcheck)]
        simp only [bind, Except.bind, map_eq_error, ih, firstFault_of_resolvable hsound]
      | error fault =>
        rw [Run.value_resolve_eq_error.2 ⟨fault, hcheck, rfl⟩]
        simp only [bind, Except.bind, firstFault_of_faulty hm hcheck]
        constructor
        · rintro ⟨⟩
          exact ⟨own, fault, ⟨rfl, rfl⟩, rfl⟩
        · rintro ⟨_, _, ⟨rfl, rfl⟩, rfl⟩
          rfl

/-- A list without a first fault has none. -/
theorem resolvable_of_not_firstFault (h : ∀ own fault, ¬ FirstFault ms own fault) :
    ∀ m ∈ ms, Resolvable m.signature := by
  induction ms with
  | nil => nofun
  | cons m ms ih =>
    have hm : Resolvable m.signature := by
      intro own hown
      cases hcheck : own.check with
      | ok signature => exact ⟨signature, SignatureSpec.resolve_eq_ok.2 hcheck⟩
      | error fault => exact (h own fault ((firstFault_of_faulty hown hcheck).2 ⟨rfl, rfl⟩)).elim
    simp only [firstFault_of_resolvable hm] at h
    exact List.forall_mem_cons.2 ⟨hm, ih h⟩

theorem FirstFault.not_resolvable (h : FirstFault ms own fault) :
    ∃ m ∈ ms, ¬ Resolvable m.signature := by
  obtain ⟨rfl, -, has, faulty⟩ := h
  refine ⟨_, List.mem_append_right _ List.mem_cons_self, ?_⟩
  rw [has]
  exact not_resolvable_of_check faulty

theorem FirstFault.of_signatures {ms' : List Measure} (h : FirstFault ms own fault)
    (hsame : ms'.map Measure.signature = ms.map Measure.signature) : FirstFault ms' own fault := by
  obtain ⟨rfl, sound, has, faulty⟩ := h
  rw [List.map_append, List.map_cons] at hsame
  obtain ⟨before', rest, rfl, hbefore, hrest⟩ := List.map_eq_append_iff.1 hsame
  obtain ⟨m', after', rfl, hm, -⟩ := List.map_eq_cons_iff.1 hrest
  refine .intro rfl (fun b hb => ?_) (hm.trans has) faulty
  obtain ⟨b', hb', hsignature⟩ := List.mem_map.1 (hbefore ▸ List.mem_map_of_mem hb)
  exact hsignature ▸ sound b' hb'

end

/-! ## Scores -/

namespace Score

/--
The error of a score. That of its default signature comes first, then the lack of measures, then
that of the first measure whose own signature does not resolve.
-/
inductive Fails (s : Score) : ScoreError → Prop where
  | default {own : SignatureSpec} {fault : SignatureFault} (has : s.signature = some own)
      (faulty : own.check = .error fault) : Fails s (.malformedSignature ⟨own.input, fault⟩)
  | empty (sound : Resolvable s.signature) (none : s.measures = []) : Fails s .noMeasures
  | measure {own : SignatureSpec} {fault : SignatureFault} (sound : Resolvable s.signature)
      (first : FirstFault s.measures own fault) :
    Fails s (.malformedSignature ⟨own.input, fault⟩)

variable {s s' : Score} {settings : Settings} {e : ScoreError}

theorem fails_of_default {own : SignatureSpec} {fault : SignatureFault}
    (has : s.signature = some own) (faulty : own.check = .error fault) :
    s.Fails e ↔ e = .malformedSignature ⟨own.input, fault⟩ := by
  have hunsound : ¬ Resolvable s.signature := has ▸ not_resolvable_of_check faulty
  constructor
  · intro h
    cases h with
    | default has' faulty' =>
      cases has.symm.trans has'
      cases faulty.symm.trans faulty'
      rfl
    | empty sound => exact (hunsound sound).elim
    | measure sound => exact (hunsound sound).elim
  · rintro rfl
    exact .default has faulty

theorem fails_of_resolvable (h : Resolvable s.signature) :
    s.Fails e ↔ s.measures = [] ∧ e = .noMeasures ∨
      ∃ own fault, FirstFault s.measures own fault ∧
        e = .malformedSignature ⟨own.input, fault⟩ := by
  constructor
  · intro hfails
    cases hfails with
    | default has faulty => exact (not_resolvable_of_check faulty (has ▸ h)).elim
    | empty _ none => exact .inl ⟨none, rfl⟩
    | measure _ first => exact .inr ⟨_, _, first, rfl⟩
  · rintro (⟨hnone, rfl⟩ | ⟨own, fault, hfirst, rfl⟩)
    · exact .empty h hnone
    · exact .measure h hfirst

theorem validate_eq_error : s.validate settings = .error e ↔ s.Fails e := by
  rw [validate_eq]
  cases hdefault : (resolveDefault s.signature).run.value with
  | error e' =>
    obtain ⟨own, fault, has, faulty, rfl⟩ := resolveDefault_eq_error.1 hdefault
    simp only [bind, Except.bind, fails_of_default has faulty, Except.error.injEq, eq_comm]
  | ok signature =>
    have hsound := resolvable_iff.2 ⟨signature, resolveDefault_eq_ok.1 hdefault⟩
    simp only [bind, Except.bind, fails_of_resolvable hsound]
    by_cases hnone : s.measures = []
    · simp [hnone, eq_comm, FirstFault.not_nil]
    · simp [hnone, map_eq_error, carry_eq_error]

theorem exists_validate_eq_ok : (∃ r, s.validate settings = .ok r) ↔ ∀ e, ¬ s.Fails e := by
  have hfails : (∀ e, ¬ s.Fails e) ↔ ∀ e, s.validate settings ≠ .error e :=
    forall_congr' fun _ => not_congr validate_eq_error.symm
  rw [hfails]
  cases s.validate settings <;> simp

theorem not_fails_iff : (∀ e, ¬ s.Fails e) ↔
    Resolvable s.signature ∧ s.measures ≠ [] ∧ ∀ m ∈ s.measures, Resolvable m.signature := by
  constructor
  · intro h
    have hdefault : Resolvable s.signature := by
      intro own hown
      cases hcheck : own.check with
      | ok signature => exact ⟨signature, SignatureSpec.resolve_eq_ok.2 hcheck⟩
      | error fault => exact (h _ (.default hown hcheck)).elim
    refine ⟨hdefault, fun hnone => h _ (.empty hdefault hnone), ?_⟩
    exact resolvable_of_not_firstFault fun own fault hfirst => h _ (.measure hdefault hfirst)
  · rintro ⟨hdefault, hne, hall⟩ e hfails
    rcases (fails_of_resolvable hdefault).1 hfails with ⟨hnone, -⟩ | ⟨own, fault, hfirst, -⟩
    · exact hne hnone
    · obtain ⟨m, hm, hunsound⟩ := hfirst.not_resolvable
      exact hunsound (hall m hm)

/-- Nothing but signatures makes an error. -/
theorem Fails.of_signatures (h : s.Fails e) (hdefault : s'.signature = s.signature)
    (hsame : s'.measures.map Measure.signature = s.measures.map Measure.signature) :
    s'.Fails e := by
  cases h with
  | default has faulty => exact .default (hdefault.trans has) faulty
  | empty sound none =>
    rw [none, List.map_nil] at hsame
    exact .empty (hdefault ▸ sound) (List.map_eq_nil_iff.1 hsame)
  | measure sound first => exact .measure (hdefault ▸ sound) (first.of_signatures hsame)

/--
**When a score has no report.** A score has a report exactly if its default resolves, it has
measures, and the own signature of each of them resolves. Otherwise its error is that of the
default, the lack of measures, or that of the first measure with a fault, in this order, and it
quotes the specification. Other events, identifiers or settings make and mend no error.
-/
theorem validate_fails_iff (s : Score) (settings : Settings) :
    ((∃ r, s.validate settings = .ok r) ↔
      Resolvable s.signature ∧ s.measures ≠ [] ∧ ∀ m ∈ s.measures, Resolvable m.signature) ∧
    (∀ e, s.validate settings = .error e ↔ s.Fails e) ∧
    ∀ (s' : Score) (settings' : Settings) (e : ScoreError), s'.signature = s.signature →
      s'.measures.map Measure.signature = s.measures.map Measure.signature →
      (s'.validate settings' = .error e ↔ s.validate settings = .error e) := by
  refine ⟨exists_validate_eq_ok.trans not_fails_iff, fun e => validate_eq_error, ?_⟩
  intro s' settings' e hdefault hsame
  rw [validate_eq_error, validate_eq_error]
  exact ⟨fun h => h.of_signatures hdefault.symm hsame.symm, fun h => h.of_signatures hdefault hsame⟩

/-- The second measure has the first fault, whatever the first one holds and the third one says. -/
theorem validate_fails_of_zero :
    let first (events : List Event) : Measure := ⟨.number 1, none, ⟨events, []⟩⟩
    let rest : List Measure :=
      [.empty (.number 2) (some (.pair 0 4)), .empty (.number 3) (some (.text "x"))]
    let e : ScoreError := .malformedSignature ⟨"0/4", .notPositive .numerator 0⟩
    (ofMeasures (first [] :: rest)).validate .default = .error e ∧
      ∀ events settings, (ofMeasures (first events :: rest)).validate settings = .error e := by
  intro first rest e
  obtain ⟨-, hfails, hsame⟩ := validate_fails_iff (ofMeasures (first [] :: rest)) .default
  have hfirst : FirstFault (first [] :: rest) (.pair 0 4) (.notPositive .numerator 0) := by
    have split : first [] :: rest = [first []] ++ rest := rfl
    exact .intro split (List.forall_mem_singleton.2 resolvable_none) rfl rfl
  have hinput : (SignatureSpec.pair 0 4).input = "0/4" := by decide +kernel
  have herror := (hfails _).2 (.measure resolvable_none hfirst)
  rw [hinput] at herror
  exact ⟨herror, fun events settings => (hsame _ settings e rfl rfl).2 herror⟩

end Score

end MeterCheck
