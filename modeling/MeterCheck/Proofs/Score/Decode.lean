import MeterCheck.Proofs.Duration.Decode
import MeterCheck.Proofs.Verdict.Exact
import MeterCheck.Score.Wire

/-!
# What a score that has been read holds

* `Event.fields_ok`, `Measure.fields_ok`, `Score.fields_ok`: each field is read on its own;
* `Score.ensure_durations`: what holds of every duration that is read holds of all of a score;
* `Score.fields_ensure`: so the multipliers of all events are unsigned 32-bit words;
* `Settings.record_ensures`: the least length is a fraction of words.
-/

namespace MeterCheck

section

variable {source : Source} {members : Members}

theorem Event.fields_ok {e : Event} (h : Event.record.fields.read members = .ok e) :
    (Fields.withDefault "duration" Duration.reader defaultDuration).read members =
      .ok e.duration := by
  obtain ⟨_, duration, hnotes, hduration, rfl⟩ := Fields.seq_eq_ok.1 h
  obtain ⟨notes, _, rfl⟩ := Fields.map_eq_ok.1 hnotes
  exact hduration

theorem Measure.fields_ok {m : Measure} (h : (Measure.record source).fields.read members = .ok m) :
    (Fields.orDefault "id" MeasureId.reader .unknown).read members = .ok m.id ∧
      (Fields.optional "time_signature" SignatureSpec.reader).read members = .ok m.signature ∧
      ∀ hand, (Fields.orDefault hand.key (Reader.list (Event.record.read source)) []).read members =
        .ok (m.voice hand) := by
  obtain ⟨_, left, hthree, hleft, rfl⟩ := Fields.seq_eq_ok.1 h
  obtain ⟨_, right, htwo, hright, rfl⟩ := Fields.seq_eq_ok.1 hthree
  obtain ⟨_, signature, hone, hsignature, rfl⟩ := Fields.seq_eq_ok.1 htwo
  obtain ⟨id, hid, rfl⟩ := Fields.map_eq_ok.1 hone
  refine ⟨hid, hsignature, fun hand => ?_⟩
  cases hand with
  | right => exact hright
  | left => exact hleft

theorem Score.fields_ok {s : Score} (h : (Score.record source).fields.read members = .ok s) :
    (Fields.optional "tempo" tempoReader).read members = .ok s.tempo ∧
      (Fields.optional "time_signature" SignatureSpec.reader).read members = .ok s.signature ∧
      (Fields.orDefault "measures" (Reader.list ((Measure.record source).read source)) []).read
        members = .ok s.measures := by
  obtain ⟨_, measures, hfive, hmeasures, rfl⟩ := Fields.seq_eq_ok.1 h
  obtain ⟨_, signature, hfour, hsignature, rfl⟩ := Fields.seq_eq_ok.1 hfive
  obtain ⟨_, tempo, hthree, htempo, rfl⟩ := Fields.seq_eq_ok.1 hfour
  obtain ⟨_, key, htwo, _, rfl⟩ := Fields.seq_eq_ok.1 hthree
  obtain ⟨_, composer, hone, _, rfl⟩ := Fields.seq_eq_ok.1 htwo
  obtain ⟨pieceName, _, rfl⟩ := Fields.map_eq_ok.1 hone
  exact ⟨htempo, hsignature, hmeasures⟩

end

/-! ## Durations -/

section

variable {P : Duration → Prop}

theorem Event.ensures_duration (hread : Duration.reader.Ensures P) (hdefault : P defaultDuration)
    (source : Source) : (Event.record.read source).Ensures fun e => P e.duration := by
  refine Record.ensures_read Event.record ?_ source
  intro members e he
  exact Fields.Ensures.withDefault _ hread hdefault members _ (Event.fields_ok he)

theorem Measure.ensures_durations (hread : Duration.reader.Ensures P)
    (hdefault : P Event.defaultDuration) (source source' : Source) :
    ((Measure.record source).read source').Ensures fun m =>
      ∀ hand, ∀ e ∈ m.voice hand, P e.duration := by
  have hvoice (name : String) :
      (Fields.orDefault name (Reader.list (Event.record.read source)) []).Ensures
        fun es => ∀ e ∈ es, P e.duration :=
    .orDefault name (Event.ensures_duration hread hdefault source).list (by simp)
  refine Record.ensures_read (Measure.record source) ?_ source'
  intro members m hm hand
  exact hvoice _ members _ ((Measure.fields_ok hm).2.2 hand)

/-- What holds of every duration that is read holds of all durations in a score. -/
theorem Score.ensure_durations (hread : Duration.reader.Ensures P)
    (hdefault : P Event.defaultDuration) (source : Source) :
    (Score.record source).fields.Ensures fun s =>
      ∀ m ∈ s.measures, ∀ hand, ∀ e ∈ m.voice hand, P e.duration := by
  intro members s hs
  exact Fields.Ensures.orDefault _ (Measure.ensures_durations hread hdefault source source).list
    (by simp) members _ (Score.fields_ok hs).2.2

end

/-- All multipliers in a measure are unsigned 32-bit words. -/
def Measure.WordSized (m : Measure) : Prop :=
  ∀ hand, ∀ e ∈ m.voice hand, e.duration.WordSized

theorem Measure.record_ensures (source source' : Source) :
    ((Measure.record source).read source').Ensures Measure.WordSized :=
  Measure.ensures_durations Duration.reader_ensures (Duration.wordSized_classify _) source source'

theorem Score.fields_ensure (source : Source) :
    (Score.record source).fields.Ensures fun s => ∀ m ∈ s.measures, m.WordSized :=
  Score.ensure_durations Duration.reader_ensures (Duration.wordSized_classify _) source

/-! ## Settings -/

theorem Reader.signed64_ensures : Reader.signed64.Ensures IsWord := by
  intro v n hn
  unfold Reader.signed64 at hn
  split at hn
  · split at hn
    · rename_i hword
      cases hn
      exact (isSigned64_iff n).1 hword
    · cases hn
  · exact (mismatch_ne_ok hn).elim

theorem Beats.reader_ensures : Beats.reader.Ensures Beats.IsFraction := by
  intro v a ha
  unfold Beats.reader at ha
  split at ha
  · dsimp only at ha
    split at ha
    · cases ha
    · obtain ⟨n, hn, ha⟩ := bind_eq_ok.1 ha
      split at ha
      · cases ha
      · obtain ⟨d, hd, ha⟩ := bind_eq_ok.1 ha
        split at ha
        · cases ha
        · split at ha
          · cases ha
          · rename_i hd0
            cases ha
            exact ⟨Reader.signed64_ensures _ n hn, Reader.signed64_ensures _ d hd, hd0⟩
  · exact (mismatch_ne_ok ha).elim

theorem Settings.isFraction_default : Settings.default.minimumPartial.IsFraction := by
  constructor <;> decide

theorem Settings.record_ensures (source : Source) :
    (Settings.record.read source).Ensures fun s => s.minimumPartial.IsFraction := by
  refine Record.ensures_read Settings.record ?_ source
  intro members s hs
  obtain ⟨_, least, hone, hleast, rfl⟩ := Fields.seq_eq_ok.1 hs
  obtain ⟨boundary, _, rfl⟩ := Fields.map_eq_ok.1 hone
  exact Fields.Ensures.withDefault _ Beats.reader_ensures Settings.isFraction_default
    members least hleast

end MeterCheck
