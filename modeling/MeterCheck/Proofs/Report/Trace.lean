import MeterCheck.Proofs.Report.Append
import MeterCheck.Proofs.Report.Failure

/-!
# The log of a run

* `Effective`: the signatures in force in all measures;
* `changes`: an entry for each measure that has another signature than the one before it;
* `log_carry`, `log_carry_of_fault`: what is logged while signatures are carried, up to the first
  measure whose own signature does not resolve;
* `Report.trace`: the entries of a run that ends with a report;
* `Score.log_run`: the log of every run, whether it ends with a report or not.
-/

namespace MeterCheck

namespace Run

variable {α β : Type} {x : Run α} {f : α → Run β}

/-- What comes after a success adds its own entries. -/
theorem log_bind_of_ok {a : α} (h : x.run.value = .ok a) :
    (x >>= f).run.log = x.run.log ++ (f a).run.log := by
  rw [ExceptT.run_bind, Logged.log_bind, h]

/-- What comes after a failure adds nothing. -/
theorem log_bind_of_error {e : ScoreError} (h : x.run.value = .error e) :
    (x >>= f).run.log = x.run.log := by
  rw [ExceptT.run_bind, Logged.log_bind, h]
  exact List.append_nil _

theorem log_resolve (spec : SignatureSpec) : (resolve spec).run.log = [] := rfl

theorem log_tell_bind (entries : List LogEntry) (f : Unit → Run β) :
    (tell entries >>= f).run.log = entries ++ (f ()).run.log := by
  have htell : (tell entries).run.log = entries := List.append_nil entries
  rw [log_bind_of_ok (a := ()) rfl, htell]

end Run

theorem log_resolveDefault (spec : Option SignatureSpec) : (resolveDefault spec).run.log = [] := by
  cases spec <;> rfl

/-! ## Changes of signature -/

/-- The signatures in force in the measures, in order. -/
structure Effective (default : Option SignatureSpec) (ms : List Measure)
    (signatures : List TimeSignature) : Prop where
  length : signatures.length = ms.length
  inForce : ∀ i s, signatures[i]? = some s → ∃ spec, InForce default ms i spec ∧ Resolves spec s

/-- The entry about a measure that has another signature than the one before it. -/
def Measure.change (m : Measure) (last own : TimeSignature) : List LogEntry :=
  if own = last then [] else [.signatureChange m.id own]

/-- Each measure is compared with the one before it, and the first one with the default. -/
def changes (default : TimeSignature) (ms : List Measure) (signatures : List TimeSignature) :
    List LogEntry :=
  ((default :: signatures).zip (ms.zip signatures)).flatMap fun x => x.2.1.change x.1 x.2.2

section

variable {current next : TimeSignature} {m : Measure} {ms before after : List Measure}
  {signatures : List TimeSignature}

theorem effective_of_carry {default : Option SignatureSpec} (hcurrent : Resolves default current)
    (h : (carry current ms).run.value = .ok signatures) : Effective default ms signatures := by
  obtain ⟨hlength, hall⟩ := carry_ok hcurrent h
  refine ⟨hlength, ?_⟩
  intro i s hs
  have hi : i < ms.length := hlength ▸ (List.getElem?_eq_some_iff.1 hs).1
  obtain ⟨spec, s', hforce, hresolves, hs'⟩ := hall i hi
  cases hs.symm.trans hs'
  exact ⟨spec, hforce, hresolves⟩

theorem changes_cons (current next : TimeSignature) (m : Measure) (ms : List Measure)
    (signatures : List TimeSignature) : changes current (m :: ms) (next :: signatures) =
      m.change current next ++ changes next ms signatures := rfl

theorem exists_of_mem_changes {e : LogEntry} (h : e ∈ changes current ms signatures) :
    ∃ id s, e = .signatureChange id s := by
  obtain ⟨x, -, hx⟩ := List.mem_flatMap.1 h
  by_cases hsame : x.2.2 = x.1
  · rw [Measure.change, if_pos hsame] at hx
    cases hx
  · rw [Measure.change, if_neg hsame] at hx
    exact ⟨_, _, List.mem_singleton.1 hx⟩

/-- A change is logged before the rest is carried, whether or not the rest has a fault. -/
theorem log_carry_rest (current next : TimeSignature) (m : Measure) (ms : List Measure) :
    (do
      if next ≠ current then Run.tell [.signatureChange m.id next]
      return next :: (← carry next ms) : Run (List TimeSignature)).run.log =
      m.change current next ++ (carry next ms).run.log := by
  have hlast : (do return next :: (← carry next ms) : Run (List TimeSignature)).run.log =
      (carry next ms).run.log := by
    cases hcarry : (carry next ms).run.value with
    | ok later =>
      rw [Run.log_bind_of_ok hcarry]
      exact List.append_nil _
    | error e => exact Run.log_bind_of_error hcarry
  by_cases hsame : next = current
  · rw [Measure.change, if_pos hsame, if_neg (not_not_intro hsame)]
    exact hlast
  · rw [Measure.change, if_neg hsame, if_pos hsame, Run.log_tell_bind]
    exact congrArg _ hlast

/-- One step: a measure whose signature resolves logs its change, and then comes the rest. -/
theorem log_carry_cons (h : m.Follows current next) : (carry current (m :: ms)).run.log =
    m.change current next ++ (carry next ms).run.log := by
  unfold Measure.Follows at h
  rw [carry]
  cases hm : m.signature with
  | none =>
    simp only [hm] at h ⊢
    subst h
    exact log_carry_rest next next m ms
  | some own =>
    simp only [hm] at h ⊢
    rw [Run.log_bind_of_ok (Run.value_resolve_eq_ok.2 h), Run.log_resolve]
    exact log_carry_rest current next m ms

/-- The other step: a measure whose signature does not resolve ends the run and logs nothing. -/
theorem log_carry_cons_of_fault (h : ¬ Resolvable m.signature) :
    (carry current (m :: ms)).run.log = [] := by
  rw [carry]
  cases hm : m.signature with
  | none => exact (h (hm ▸ resolvable_none)).elim
  | some own =>
    cases hcheck : own.check with
    | ok next => exact (h (hm ▸ resolvable_some.2 ⟨next, hcheck⟩)).elim
    | error fault =>
      dsimp only
      rw [Run.log_bind_of_error (Run.value_resolve_eq_error.2 ⟨fault, hcheck, rfl⟩)]
      exact Run.log_resolve own

/-- Induction on the first measures, which resolve, whatever comes after them. -/
theorem log_carry_append (h : (carry current before).run.value = .ok signatures) :
    (carry current (before ++ after)).run.log =
      changes current before signatures ++
        (carry (signatures.getLastD current) after).run.log := by
  induction before generalizing current signatures with
  | nil =>
    cases h
    rfl
  | cons m before ih =>
    obtain ⟨next, later, hnext, hlater, rfl⟩ := carry_cons_eq_ok.1 h
    rw [List.cons_append, log_carry_cons hnext, ih hlater, changes_cons, List.getLastD_cons,
      List.append_assoc]

theorem log_carry (h : (carry current ms).run.value = .ok signatures) :
    (carry current ms).run.log = changes current ms signatures := by
  have happend : (carry current (ms ++ [])).run.log = changes current ms signatures ++
      (carry (signatures.getLastD current) []).run.log := log_carry_append h
  rw [List.append_nil] at happend
  rw [happend]
  exact List.append_nil _

theorem exists_carry_of_resolvable (current : TimeSignature)
    (h : ∀ m ∈ ms, Resolvable m.signature) :
    ∃ signatures, (carry current ms).run.value = .ok signatures := by
  cases hcarry : (carry current ms).run.value with
  | ok signatures => exact ⟨signatures, rfl⟩
  | error e =>
    obtain ⟨own, fault, hfirst, -⟩ := carry_eq_error.1 hcarry
    obtain ⟨m, hm, hfault⟩ := hfirst.not_resolvable
    exact (hfault (h m hm)).elim

/-- The first fault ends the log, which tells of the measures before it. -/
theorem log_carry_of_fault {signatures : List TimeSignature}
    (hbefore : (carry current before).run.value = .ok signatures)
    (hfault : ¬ Resolvable m.signature) :
    (carry current (before ++ m :: after)).run.log = changes current before signatures := by
  rw [log_carry_append hbefore, log_carry_cons_of_fault hfault, List.append_nil]

end

/-! ## Verdicts and the summary -/

namespace MeasureResult

/-- A warning about the events of one hand that are not known, if there are any. -/
def warning (x : MeasureResult) (hand : Hand) : List LogEntry :=
  let events := (x.hands.get hand).unrecognized
  if events = [] then [] else [.unrecognized x.id hand events]

theorem entries_eq (x : MeasureResult) :
    x.entries = x.warning .right ++ x.warning .left ++ [.judged x] := by
  have hwarning (hand : Hand) : ([hand].filterMap fun hand =>
      let events := (x.hands.get hand).unrecognized
      if events.isEmpty then none else some (LogEntry.unrecognized x.id hand events)) =
      x.warning hand := by
    unfold warning
    cases hevents : (x.hands.get hand).unrecognized <;> simp [hevents]
  rw [entries, Hand.both, ← List.singleton_append, List.filterMap_append, hwarning, hwarning]

theorem level_of_mem_warning {x : MeasureResult} {hand : Hand} {e : LogEntry}
    (h : e ∈ x.warning hand) : e.level = .warn := by
  by_cases hnone : (x.hands.get hand).unrecognized = []
  · rw [warning, if_pos hnone] at h
    cases h
  · rw [warning, if_neg hnone] at h
    rw [List.mem_singleton.1 h]
    rfl

end MeasureResult

/-- An entry as it is shown. -/
def LogEntry.line (e : LogEntry) : Level × String := (e.level, e.message)

namespace Report

/-- The entries of a run that ends with a report on these measures. -/
def trace (r : Report) (ms : List Measure) : List LogEntry :=
  changes r.signature ms (r.results.map MeasureResult.signature) ++
    r.results.flatMap (fun x => x.warning .right ++ x.warning .left ++ [.judged x]) ++
    r.deviations.map .deviation ++
    [.summary r.total r.valid r.invalid]

/-- The lines that these entries are shown as. -/
def lines (r : Report) (ms : List Measure) : List (Level × String) :=
  (changes r.signature ms (r.results.map MeasureResult.signature)).map
      (fun e => (.debug, e.message)) ++
    r.results.flatMap (fun x =>
      (x.warning .right ++ x.warning .left).map (fun e => (.warn, e.message)) ++
        [(.debug, (LogEntry.judged x).message)]) ++
    r.describeInvalid.map (fun text => (.warn, text)) ++
    [(.info, (LogEntry.summary r.total r.valid r.invalid).message)]

theorem map_line_trace (r : Report) (ms : List Measure) :
    (r.trace ms).map LogEntry.line = r.lines ms := by
  have hchanges : (changes r.signature ms (r.results.map MeasureResult.signature)).map
      LogEntry.line = (changes r.signature ms (r.results.map MeasureResult.signature)).map
        (fun e => (.debug, e.message)) := by
    apply List.map_congr_left
    intro e he
    obtain ⟨id, s, rfl⟩ := exists_of_mem_changes he
    rfl
  have hwarnings (x : MeasureResult) : (x.warning .right ++ x.warning .left).map LogEntry.line =
      (x.warning .right ++ x.warning .left).map (fun e => (.warn, e.message)) := by
    apply List.map_congr_left
    intro e he
    obtain hright | hleft := List.mem_append.1 he
    · rw [LogEntry.line, MeasureResult.level_of_mem_warning hright]
    · rw [LogEntry.line, MeasureResult.level_of_mem_warning hleft]
  have hdeviations : (r.deviations.map LogEntry.deviation).map LogEntry.line =
      r.describeInvalid.map (fun text => (.warn, text)) := by
    rw [describeInvalid, List.map_map, List.map_map]
    rfl
  rw [trace, lines, List.map_append, List.map_append, List.map_append, hchanges, hdeviations,
    List.map_flatMap]
  simp only [List.map_append, hwarnings]
  rfl

end Report

namespace Score

variable {s : Score} {settings : Settings}

theorem log_run_of_not_resolvable (h : ¬ Resolvable s.signature) :
    (s.run settings).run.log = [] := by
  cases hdefault : (resolveDefault s.signature).run.value with
  | ok default => exact (h (resolvable_iff.2 ⟨default, resolveDefault_eq_ok.1 hdefault⟩)).elim
  | error e => rw [run, Run.log_bind_of_error hdefault, log_resolveDefault]

theorem log_run_of_empty (h : s.measures = []) : (s.run settings).run.log = [] := by
  cases hdefault : (resolveDefault s.signature).run.value with
  | ok default =>
    rw [run, Run.log_bind_of_ok hdefault, log_resolveDefault, h]
    rfl
  | error e => rw [run, Run.log_bind_of_error hdefault, log_resolveDefault]

/-- A fault in a measure leaves what was logged while the signatures were carried. -/
theorem log_run_of_fault {default : TimeSignature} {e : ScoreError}
    (hdefault : Resolves s.signature default)
    (h : (carry default s.measures).run.value = .error e) :
    (s.run settings).run.log = (carry default s.measures).run.log := by
  have hne : s.measures.isEmpty = false := by
    cases hms : s.measures with
    | nil =>
      rw [hms] at h
      cases h
    | cons m ms => rfl
  rw [run, Run.log_bind_of_ok (resolveDefault_eq_ok.2 hdefault), log_resolveDefault, hne]
  exact Run.log_bind_of_error h

theorem log_run_of_ok {r : Report} (h : s.validate settings = .ok r) :
    (s.run settings).run.log = r.trace s.measures := by
  obtain ⟨default, signatures, hdefault, hne, hcarry, rfl⟩ := run_eq_ok.1 h
  have hlength := (carry_ok hdefault hcarry).1
  have hempty : s.measures.isEmpty = false := by simpa using hne
  rw [run, Run.log_bind_of_ok (resolveDefault_eq_ok.2 hdefault), log_resolveDefault, hempty,
    List.nil_append]
  refine (Run.log_bind_of_ok hcarry).trans ?_
  simp only [Run.log_tell_bind, log_carry hcarry, funext MeasureResult.entries_eq,
    Report.trace, Report.ofResults, map_signature_judgeAll hlength, List.append_assoc]
  rfl

/-- The run of a score whose measure `m` has the first fault. -/
theorem log_run_of_firstFault {default : TimeSignature} {before after : List Measure} {m : Measure}
    {own : SignatureSpec} {fault : SignatureFault} (hdefault : Resolves s.signature default)
    (split : s.measures = before ++ m :: after) (sound : ∀ b ∈ before, Resolvable b.signature)
    (has : m.signature = some own) (faulty : own.check = .error fault) :
    s.validate settings = .error (.malformedSignature ⟨own.input, fault⟩) ∧
      ∃ signatures, Effective s.signature before signatures ∧
        (s.run settings).run.log = changes default before signatures := by
  have first : FirstFault s.measures own fault := .intro split sound has faulty
  have hcarry : (carry default s.measures).run.value =
      .error (.malformedSignature ⟨own.input, fault⟩) :=
    carry_eq_error.2 ⟨own, fault, first, rfl⟩
  obtain ⟨signatures, hbefore⟩ := exists_carry_of_resolvable default sound
  refine ⟨validate_eq_error.2 (.measure (resolvable_iff.2 ⟨default, hdefault⟩) first), signatures,
    effective_of_carry hdefault hbefore, ?_⟩
  rw [log_run_of_fault hdefault hcarry, split]
  exact log_carry_of_fault hbefore (has ▸ not_resolvable_of_check faulty)

/-- A run without a report logs nothing but changes of signature. -/
theorem exists_of_mem_log {e : ScoreError} (h : s.validate settings = .error e) {entry : LogEntry}
    (hentry : entry ∈ (s.run settings).run.log) : ∃ id own, entry = .signatureChange id own := by
  cases validate_eq_error.1 h with
  | default has faulty =>
    rw [log_run_of_not_resolvable (has ▸ not_resolvable_of_check faulty)] at hentry
    cases hentry
  | empty _ none =>
    rw [log_run_of_empty none] at hentry
    cases hentry
  | measure sound first =>
    obtain ⟨default, hdefault⟩ := resolvable_iff.1 sound
    obtain ⟨split, before_sound, has, faulty⟩ := first
    obtain ⟨-, signatures, -, hlog⟩ :=
      log_run_of_firstFault hdefault split before_sound has faulty
    rw [hlog] at hentry
    exact exists_of_mem_changes hentry

/--
**The log of every run.** A run that ends with a report has logged, in this order, each change of
the signature in force, the warnings and the outcome of each measure, a warning for each line about
a voice that is off, and the summary. A run that ends with a fault in a measure has logged the
changes before that measure, and a run that ends earlier nothing. So no run without a report has
logged anything but changes.
-/
theorem log_run (s : Score) (settings : Settings) :
    (∀ r, s.validate settings = .ok r → (s.run settings).run.log = r.trace s.measures ∧
      (s.run settings).run.log.map LogEntry.line = r.lines s.measures ∧
      Effective s.signature s.measures (r.results.map MeasureResult.signature)) ∧
    (¬ Resolvable s.signature ∨ s.measures = [] → (s.run settings).run.log = []) ∧
    (∀ default before m after own fault, Resolves s.signature default →
      s.measures = before ++ m :: after → (∀ b ∈ before, Resolvable b.signature) →
      m.signature = some own → own.check = .error fault →
      s.validate settings = .error (.malformedSignature ⟨own.input, fault⟩) ∧
      ∃ signatures, Effective s.signature before signatures ∧
        (s.run settings).run.log = changes default before signatures) ∧
    ∀ e, s.validate settings = .error e → ∀ entry ∈ (s.run settings).run.log,
      ∃ id own, entry = .signatureChange id own := by
  refine ⟨?report, ?early, ?fault, fun e he entry => exists_of_mem_log he⟩
  case report =>
    intro r hr
    have hlog := log_run_of_ok hr
    refine ⟨hlog, hlog ▸ r.map_line_trace s.measures, ?_⟩
    obtain ⟨default, signatures, hdefault, -, hcarry, rfl⟩ := run_eq_ok.1 hr
    have heffective := effective_of_carry hdefault hcarry
    rw [Report.ofResults, map_signature_judgeAll heffective.length]
    exact heffective
  case early =>
    intro h
    exact h.elim log_run_of_not_resolvable log_run_of_empty
  case fault =>
    intro default before m after own fault hdefault split sound has faulty
    exact log_run_of_firstFault hdefault split sound has faulty

/--
The second measure repeats the signature it has anyway, and the third one changes it. The fourth one
ends the run, so that nothing is logged about the fifth. Without the last two there is a report.
-/
theorem log_run_of_repeated :
    let sound : List Measure := [.empty (.number 1) none, .empty (.number 2) (some (.text "4/4")),
      ⟨.number 3, some (.pair 3 4), ⟨[⟨["C4"], .piece (.name "long")⟩], []⟩⟩]
    let faulty : Measure := .empty (.number 4) (some (.pair 3 0))
    let s : Score := .ofMeasures (sound ++ faulty :: [.empty (.number 5) (some (.pair 2 4))])
    let s' : Score := .ofMeasures sound
    s.validate .default =
        .error (.malformedSignature ⟨(SignatureSpec.pair 3 0).input, .notPositive .denominator 0⟩) ∧
      (∃ signatures, Effective none sound signatures ∧
        (s.run .default).run.log = changes .common sound signatures) ∧
      (s.run .default).run.log = [.signatureChange (.number 3) ⟨3, 4⟩] ∧
      ∃ r, s'.validate .default = .ok r ∧ (s'.run .default).run.log = r.trace sound ∧
        (r.lines sound).map Prod.fst = [.debug, .debug, .debug, .warn, .debug, .warn, .warn, .warn,
          .warn, .warn, .warn, .info] := by
  intro sound faulty s s'
  obtain ⟨-, -, hfault, -⟩ := log_run s .default
  obtain ⟨hreport, -⟩ := log_run s' .default
  have hsound : ∀ b ∈ sound, Resolvable b.signature := by
    intro b hb
    simp only [sound, List.mem_cons, List.not_mem_nil, or_false] at hb
    obtain rfl | rfl | rfl := hb
    · exact resolvable_none
    · exact resolvable_some.2 ⟨.common, rfl⟩
    · exact resolvable_some.2 ⟨⟨3, 4⟩, rfl⟩
  obtain ⟨herror, hlog⟩ := hfault .common sound faulty _ (.pair 3 0) (.notPositive .denominator 0)
    rfl rfl hsound rfl rfl
  obtain ⟨r, hr⟩ : ∃ r, s'.validate .default = .ok r := ⟨_, rfl⟩
  obtain ⟨htrace, -, -⟩ := hreport r hr
  refine ⟨herror, hlog, rfl, r, hr, htrace, ?_⟩
  cases hr
  decide +kernel

end Score

end MeterCheck
