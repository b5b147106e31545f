import MeterCheck.Report.Run

/-!
# What a run does not log

* `Logged.Quiet`: no answer had to be given up because it could not be written;
* `Score.quiet_run`: the report on a score does not say so. One lemma for each way of putting runs
  together.
-/

namespace MeterCheck

/-- Every answer could be written. -/
def Logged.Quiet {α : Type} (x : Logged α) : Prop := ∀ message, .unwritable message ∉ x.log

namespace Run

variable {α β : Type}

theorem quiet_pure (a : α) : (pure a : Run α).run.Quiet := fun _ => List.not_mem_nil

theorem quiet_throw (e : ScoreError) : (throw e : Run α).run.Quiet := fun _ => List.not_mem_nil

theorem quiet_bind {x : Run α} {f : α → Run β} (hx : x.run.Quiet) (hf : ∀ a, (f a).run.Quiet) :
    (x >>= f).run.Quiet := by
  intro message
  rw [ExceptT.run_bind, Logged.log_bind, List.mem_append, not_or]
  refine ⟨hx message, ?_⟩
  cases x.run.value with
  | ok a => exact hf a message
  | error e => exact List.not_mem_nil

theorem quiet_tell {entries : List LogEntry} (h : ∀ message, .unwritable message ∉ entries) :
    (tell entries).run.Quiet := by
  intro message
  change _ ∉ entries ++ []
  rw [List.append_nil]
  exact h message

theorem quiet_resolve (spec : SignatureSpec) : (resolve spec).run.Quiet :=
  fun _ => List.not_mem_nil

end Run

theorem quiet_resolveDefault (spec : Option SignatureSpec) : (resolveDefault spec).run.Quiet := by
  cases spec with
  | none => exact Run.quiet_pure _
  | some spec => exact Run.quiet_resolve spec

theorem quiet_carry (current : TimeSignature) (ms : List Measure) :
    (carry current ms).run.Quiet := by
  induction ms generalizing current with
  | nil => exact Run.quiet_pure _
  | cons m rest ih =>
    have hrest (next : TimeSignature) :
        (do return next :: (← carry next rest) : Run (List TimeSignature)).run.Quiet :=
      Run.quiet_bind (ih next) fun _ => Run.quiet_pure _
    have hnext (next : TimeSignature) : (do
        if next ≠ current then Run.tell [.signatureChange m.id next]
        return next :: (← carry next rest) : Run (List TimeSignature)).run.Quiet := by
      split
      · exact Run.quiet_bind (Run.quiet_tell (by simp)) fun _ => hrest next
      · exact hrest next
    rw [carry]
    cases m.signature with
    | none => exact hnext current
    | some spec => exact Run.quiet_bind (Run.quiet_resolve spec) hnext

theorem MeasureResult.quiet_entries (r : MeasureResult) (message : String) :
    .unwritable message ∉ r.entries := by
  simp [entries, List.mem_filterMap]

theorem Score.quiet_run (s : Score) (settings : Settings) : (s.run settings).run.Quiet := by
  apply Run.quiet_bind (quiet_resolveDefault s.signature)
  intro signature
  have hresults (signatures : List TimeSignature) :
      ∀ message, .unwritable message ∉ (judgeAll settings s.measures signatures).flatMap
        MeasureResult.entries := by
    intro message hmem
    obtain ⟨r, _, hr⟩ := List.mem_flatMap.1 hmem
    exact r.quiet_entries message hr
  have hreport (signatures : List TimeSignature) : (do
      let results := judgeAll settings s.measures signatures
      Run.tell (results.flatMap MeasureResult.entries)
      let report := Report.ofResults signature results
      Run.tell (report.deviations.map .deviation)
      Run.tell [.summary report.total report.valid report.invalid]
      return report : Run Report).run.Quiet := by
    apply Run.quiet_bind (Run.quiet_tell (hresults signatures))
    intro _
    apply Run.quiet_bind (Run.quiet_tell (by simp))
    intro _
    exact Run.quiet_bind (Run.quiet_tell (by simp)) fun _ => Run.quiet_pure _
  split
  · exact Run.quiet_bind (Run.quiet_throw .noMeasures) fun _ =>
      Run.quiet_bind (quiet_carry signature s.measures) hreport
  · exact Run.quiet_bind (quiet_carry signature s.measures) hreport

end MeterCheck
