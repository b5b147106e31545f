import MeterCheck.Proofs.Decode.Origin
import MeterCheck.Proofs.Score.Decode
import MeterCheck.Service.Request

/-!
# What a request that has been read holds

* `ScoreRequest.reader_eq_ok`, `MeasureRequest.fields_ok`: each part is read on its own;
* `ScoreRequest.exists_of_decode`, `MeasureRequest.exists_of_decode`: the document it is read from;
* `ScoreRequest.reader_ensures`, `MeasureRequest.record_ensures`: its multipliers are words and its
  least length is a fraction.
-/

namespace MeterCheck

variable {members : Members} {text : String}

namespace ScoreRequest

variable {r : ScoreRequest}

theorem reader_eq_ok : reader (.object members) = .ok r ↔
    (∀ m ∈ members, m.1 = "settings" ∨ m.2.sound = true) ∧
      settingsField.read members = .ok r.settings ∧
      (Score.record .buffer).fields.read members = .ok r.score := by
  have hsound : (members.all fun m => m.1 == "settings" || m.2.sound) = true ↔
      ∀ m ∈ members, m.1 = "settings" ∨ m.2.sound = true := by
    simp only [List.all_eq_true, Bool.or_eq_true, beq_iff_eq]
  change (if (members.all fun m => m.1 == "settings" || m.2.sound) = true then _ else _) = _ ↔ _
  by_cases hall : (members.all fun m => m.1 == "settings" || m.2.sound) = true
  · simp only [if_pos hall, bind_eq_ok, mapError_eq_ok]
    constructor
    · rintro ⟨settings, hsettings, score, hscore, h⟩
      cases h
      exact ⟨hsound.1 hall, hsettings, hscore⟩
    · rintro ⟨-, hsettings, hscore⟩
      exact ⟨_, hsettings, _, hscore, rfl⟩
  · rw [if_neg hall]
    constructor
    · intro h
      cases h
    · intro h
      exact (hall (hsound.2 h.1)).elim

/-- Only an object is read as a request about a score. -/
theorem exists_members {v : Json} (h : reader v = .ok r) : ∃ members, v = .object members := by
  cases v with
  | object members => exact ⟨members, rfl⟩
  | null | bool | int | double | string | array | flawed =>
    simp [reader, mismatch_ne_ok] at h

theorem exists_of_decode (h : decode reader text = .ok r) :
    ∃ members, Json.parse? text = some (.object members) ∧
      (Score.record .buffer).fields.read members = .ok r.score := by
  obtain ⟨v, hparse, hread⟩ := decode_eq_ok.1 h
  obtain ⟨members, rfl⟩ := exists_members hread
  exact ⟨members, hparse, (reader_eq_ok.1 hread).2.2⟩

theorem settingsField_ensures : settingsField.Ensures fun s => s.minimumPartial.IsFraction :=
  Fields.Ensures.withDefault _ (Settings.record_ensures .text) Settings.isFraction_default

theorem reader_ensures : reader.Ensures fun r =>
    (∀ m ∈ r.score.measures, m.WordSized) ∧ r.settings.minimumPartial.IsFraction := by
  intro v r hr
  obtain ⟨members, rfl⟩ := exists_members hr
  obtain ⟨-, hsettings, hscore⟩ := reader_eq_ok.1 hr
  exact ⟨Score.fields_ensure .buffer members r.score hscore,
    settingsField_ensures members r.settings hsettings⟩

end ScoreRequest

namespace MeasureRequest

variable {r : MeasureRequest}

theorem fields_ok (h : record.fields.read members = .ok r) :
    (Fields.required "measure" ((Measure.record .text).read .text)).read members = .ok r.measure ∧
      ScoreRequest.settingsField.read members = .ok r.settings := by
  obtain ⟨_, settings, hthree, hsettings, rfl⟩ := Fields.seq_eq_ok.1 h
  obtain ⟨_, position, htwo, _, rfl⟩ := Fields.seq_eq_ok.1 hthree
  obtain ⟨_, signature, hone, _, rfl⟩ := Fields.seq_eq_ok.1 htwo
  obtain ⟨m, hm, rfl⟩ := Fields.map_eq_ok.1 hone
  exact ⟨hm, hsettings⟩

/-- The measure of a request is read from its member. -/
theorem exists_of_decode (h : decode (record.read .text) text = .ok r) :
    ∃ v measure, Json.parse? text = some v ∧ (record.members v).lookup "measure" = some measure ∧
      measure.weight < v.weight ∧ (Measure.record .text).read .text measure = .ok r.measure := by
  obtain ⟨v, hparse, hread⟩ := decode_eq_ok.1 h
  have hmeasure := (fields_ok (Record.read_members hread)).1
  rcases Fields.lookup_of_read hmeasure with ⟨-, habsent⟩ | ⟨measure, hlookup, hread⟩
  · cases habsent
  · have hlt : measure.weight < v.weight := Record.weight_lt (Table.mem_of_lookup hlookup)
    exact ⟨v, measure, hparse, hlookup, hlt, hread⟩

theorem record_ensures : (record.read .text).Ensures fun r =>
    r.measure.WordSized ∧ r.settings.minimumPartial.IsFraction := by
  refine Record.ensures_read record ?_ .text
  intro members r hr
  obtain ⟨hmeasure, hsettings⟩ := fields_ok hr
  exact ⟨Fields.Ensures.required _ (Measure.record_ensures .text .text) members r.measure hmeasure,
    ScoreRequest.settingsField_ensures members r.settings hsettings⟩

end MeasureRequest

end MeterCheck
