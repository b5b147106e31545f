import MeterCheck.Proofs.Decode.Written
import MeterCheck.Proofs.Duration.Written
import MeterCheck.Proofs.Score.Decode

/-!
# Scores that are written and read again

* `Event.ReadWithin`, `Measure.ReadWithin`, `Score.WasRead`: what holds of everything that was read
  from a text, so that it can be read again;
* `Score.reread`: what comes back. Only durations and the numbers in a tempo can change;
* `Score.ofText_text`: a score that was read comes back from its written form.
-/

namespace MeterCheck

/-! ## Signatures and identifiers -/

namespace SignatureSpec

/-- Two integers are words of 64 bits. -/
def Fits : SignatureSpec → Prop
  | .text _ => True
  | .pair n d => Text.isSigned64 n = true ∧ Text.isSigned64 d = true

theorem isSigned64_of_part? {name : String} {members : Members} {n : Int}
    (h : part? name members = some n) : Text.isSigned64 n = true := by
  unfold part? at h
  split at h
  · split at h
    · rename_i hword
      cases h
      exact hword
    · cases h
  · cases h

theorem reader_ensures : reader.Ensures Fits := by
  intro v spec h
  obtain ⟨v, _, h⟩ := bind_eq_ok.1 h
  split at h
  · rename_i hspec
    cases h
    unfold ofJson? at hspec
    split at hspec
    · cases hspec
      trivial
    · obtain ⟨n, hn, hspec⟩ := Option.bind_eq_some_iff.1 hspec
      obtain ⟨d, hd, hspec⟩ := Option.bind_eq_some_iff.1 hspec
      cases hspec
      exact ⟨isSigned64_of_part? hn, isSigned64_of_part? hd⟩
    · cases hspec
  · cases h

end SignatureSpec

theorem within_int {n : Int} (h : Text.isSigned64 n = true) (k : Nat) : (Json.int n).Within k := by
  simp only [Text.isSigned64, Bool.and_eq_true, decide_eq_true_eq] at h
  exact .int (by omega) (by omega)

namespace SignatureSpec

theorem within_toJson {spec : SignatureSpec} (h : spec.Fits) (k : Nat) :
    spec.toJson.Within (k + 1) := by
  cases spec with
  | text s => exact .string s
  | pair n d =>
    refine .object ?_
    simp [within_int h.1, within_int h.2]

theorem reread_toJson (spec : SignatureSpec) : spec.toJson.reread = spec.toJson := by
  cases spec with
  | text s => rfl
  | pair n d => rfl

theorem reader_of_ofJson? {v : Json} {spec : SignatureSpec} (hv : v.sound = true)
    (h : ofJson? v = some spec) : reader v = .ok spec := by
  rw [reader, Reader.document, if_pos hv]
  simp only [bind, Except.bind, h]

theorem reader_toJson {spec : SignatureSpec} (h : spec.Fits) : reader spec.toJson = .ok spec := by
  cases spec with
  | text s => rfl
  | pair n d =>
    have hn : part? "numerator" [("numerator", .int n), ("denominator", .int d)] = some n := by
      simp [part?, Fields.occurrences, h.1]
    have hd : part? "denominator" [("numerator", .int n), ("denominator", .int d)] = some d := by
      simp [part?, Fields.occurrences, h.2]
    have hspec : ofJson? (toJson (.pair n d)) = some (.pair n d) := by
      simp [toJson, ofJson?, hn, hd]
    exact reader_of_ofJson? rfl hspec

theorem toJson_ne_null (spec : SignatureSpec) : spec.toJson ≠ .null := by
  cases spec <;> simp [toJson]

end SignatureSpec

namespace MeasureId

/-- A number is a word of 64 bits. -/
def Fits : MeasureId → Prop
  | .number n => Text.isSigned64 n = true
  | .text _ => True

theorem reader_ensures : reader.Ensures Fits := by
  intro v id h
  unfold reader at h
  split at h
  · split at h
    · rename_i hword
      cases h
      exact hword
    · cases h
  · cases h
    trivial
  · cases h

theorem within_toJson {id : MeasureId} (h : id.Fits) (k : Nat) : id.toJson.Within k := by
  cases id with
  | number n => exact within_int h k
  | text s => exact .string s

theorem reread_toJson (id : MeasureId) : id.toJson.reread = id.toJson := by
  cases id <;> rfl

theorem reader_toJson {id : MeasureId} (h : id.Fits) : reader id.toJson = .ok id := by
  cases id with
  | number n => exact if_pos h
  | text s => rfl

theorem toJson_ne_null (id : MeasureId) : id.toJson ≠ .null := by
  cases id <;> simp [toJson]

end MeasureId

/-! ## Events -/

namespace Event

/-- The event that comes back from the written form. -/
def reread (e : Event) : Event := { e with duration := e.duration.reread }

/-- The duration was read from a value inside at most `n` levels. -/
def ReadWithin (n : Nat) (e : Event) : Prop :=
  ∃ v : Json, v.Within n ∧ e.duration = Duration.ofJson v

variable {n : Nat} {e : Event}

theorem ReadWithin.written (h : e.ReadWithin n) : e.duration.Written n := by
  obtain ⟨v, hv, hduration⟩ := h
  exact hduration ▸ Duration.written_ofJson hv

theorem ReadWithin.rereads (h : e.ReadWithin n) : e.duration.Rereads := by
  obtain ⟨v, _, hduration⟩ := h
  exact hduration ▸ Duration.rereads_ofJson v

/-- A duration that an event gives is part of its document. -/
theorem readWithin_of_read {source : Source} {v : Json} (hv : v.Within (n + 1))
    (h : record.read source v = .ok e) : e.ReadWithin n := by
  obtain ⟨members, hread, hmembers⟩ := Record.exists_of_read h
  rcases Fields.exists_of_field (fields_ok hread) with hdefault | ⟨m, hm, hduration⟩
  · have hquarter : e.duration = Duration.ofJson (.string "quarter") := by
      rw [← Except.ok.inj hdefault, Duration.ofJson, defaultDuration]
    exact ⟨.string "quarter", .string _, hquarter⟩
  · exact ⟨m.2, hv.of_mem_children (hmembers m hm), Duration.eq_of_reader hduration⟩

theorem reread_toJson (h : e.ReadWithin n) : e.toJson.reread =
    .object [("notes", .array (e.notes.map .string)), ("duration", e.duration.toJson)] := by
  have hnotes : (e.notes.map Json.string).map Json.reread = e.notes.map .string := by
    simp [Json.reread]
  rw [toJson, Json.reread_object]
  simp only [List.map_cons, List.map_nil, Json.reread_array, hnotes, h.written.reread_eq]

theorem within_toJson (h : e.ReadWithin (n + 1)) : e.toJson.Within (n + 2) := by
  have hnotes : (Json.array (e.notes.map .string)).Within (n + 1) :=
    Json.within_array_map fun s _ => .string s
  refine .object ?_
  simp [hnotes, h.written.within]

theorem read_toJson (h : e.ReadWithin n) (source : Source) :
    record.read source e.toJson.reread = .ok e.reread := by
  have hnotes : Reader.list Reader.text (.array (e.notes.map .string)) = .ok e.notes := by
    have hlist : Reader.list Reader.text (.array (e.notes.map .string)) = .ok (e.notes.map id) :=
      Reader.list_map fun _ _ => rfl
    rwa [List.map_id] at hlist
  have hnodup : ([("notes", Json.array (e.notes.map .string)),
      ("duration", e.duration.toJson)].map Prod.fst).Nodup := by
    simp
  rw [reread_toJson h]
  refine Record.read_object (Fields.seq_eq_ok.2 ⟨_, e.duration.reread, Fields.map_eq_ok.2
    ⟨e.notes, ?_, rfl⟩, ?_, rfl⟩) source
  · refine Fields.read_of_mem hnodup List.mem_cons_self ?_
    rw [Reader.orDefault_of_ne (by simp), hnotes]
  · exact Fields.read_of_mem hnodup (List.mem_cons_of_mem _ List.mem_cons_self)
      (Duration.reader_toJson h.written)

end Event

/-! ## Measures -/

namespace Measure

/-- The measure that comes back from the written form. -/
def reread (m : Measure) : Measure :=
  { m with voices := m.voices.map fun events => events.map Event.reread }

/-- What holds of a measure that was read; `n` levels are left for each duration. -/
structure ReadWithin (n : Nat) (m : Measure) : Prop where
  id_fits : m.id.Fits
  signature_fits : ∀ spec ∈ m.signature, spec.Fits
  events : ∀ hand, ∀ e ∈ m.voice hand, e.ReadWithin n

variable {n : Nat} {m : Measure}

/-- Every event of a measure is part of its document. -/
theorem readWithin_of_read {source source' : Source} {v : Json} (hv : v.Within (n + 3))
    (h : (record source).read source' v = .ok m) : m.ReadWithin n := by
  obtain ⟨members, hread, hmembers⟩ := Record.exists_of_read h
  obtain ⟨hid, hsignature, hvoices⟩ := fields_ok hread
  constructor
  · exact Fields.Ensures.orDefault _ MeasureId.reader_ensures (by exact trivial) members _ hid
  · exact Fields.Ensures.optional _ SignatureSpec.reader_ensures members _ hsignature
  · intro hand e he
    obtain ⟨member, hmember, c, hc, hread⟩ := Fields.exists_of_list (hvoices hand) e he
    have hmember := hv.of_mem_children (hmembers member hmember)
    exact Event.readWithin_of_read (hmember.of_mem_children hc) hread

theorem within_toJson (h : m.ReadWithin (n + 1)) : m.toJson.Within (n + 4) := by
  have hvoice (hand : Hand) : (Json.array ((m.voice hand).map Event.toJson)).Within (n + 3) :=
    Json.within_array_map fun e he => Event.within_toJson (h.events hand e he)
  have hsignature : ∀ v ∈ m.signature.map SignatureSpec.toJson, v.Within (n + 3) :=
    Json.within_map fun spec hspec => SignatureSpec.within_toJson (h.signature_fits spec hspec) _
  refine Json.within_ofMembers ?_
  simp only [List.forall_mem_cons, Option.mem_def, Option.some.injEq, forall_eq']
  exact ⟨MeasureId.within_toJson h.id_fits _, hsignature, hvoice .right, hvoice .left, by simp⟩

theorem read_toJson (h : m.ReadWithin n) (source source' : Source) :
    (record source).read source' m.toJson.reread = .ok m.reread := by
  let ms : List (String × Option Json) :=
    [("id", some m.id.toJson),
     ("time_signature", m.signature.map SignatureSpec.toJson),
     ("right_hand", some (.array (m.voices.right.map fun e => e.toJson.reread))),
     ("left_hand", some (.array (m.voices.left.map fun e => e.toJson.reread)))]
  have hreread : m.toJson.reread = .object (Json.present ms) := by
    rw [toJson, Json.reread_ofMembers]
    simp only [List.map_cons, List.map_nil, Option.map_some, MeasureId.reread_toJson,
      Json.map_reread SignatureSpec.reread_toJson, Json.reread_array, List.map_map]
    rfl
  have hnodup : (ms.map Prod.fst).Nodup := by simp [ms]
  have hvoice (hand : Hand) : Reader.list (Event.record.read source)
      (.array ((m.voice hand).map fun e => e.toJson.reread)) =
        .ok ((m.voice hand).map Event.reread) :=
    Reader.list_map fun e he => Event.read_toJson (h.events hand e he) source
  rw [hreread]
  refine Record.read_object (Fields.seq_eq_ok.2 ⟨_, m.voices.left.map Event.reread,
    Fields.seq_eq_ok.2 ⟨_, m.voices.right.map Event.reread, Fields.seq_eq_ok.2 ⟨_, m.signature,
      Fields.map_eq_ok.2 ⟨m.id, ?_, rfl⟩, ?_, rfl⟩, ?_, rfl⟩, ?_, rfl⟩) source'
  · exact Fields.orDefault_present hnodup (by simp [ms]) m.id.toJson_ne_null
      (MeasureId.reader_toJson h.id_fits)
  · exact Fields.optional_present_self hnodup (by simp [ms]) SignatureSpec.toJson_ne_null
      fun spec hspec => SignatureSpec.reader_toJson (h.signature_fits spec hspec)
  · exact Fields.orDefault_present hnodup (by simp [ms, voice, Hands.get]) (by simp) (hvoice .right)
  · exact Fields.orDefault_present hnodup (by simp [ms, voice, Hands.get]) (by simp) (hvoice .left)

end Measure

/-! ## Scores -/

namespace Score

/-- The score that comes back from the written form. -/
def reread (s : Score) : Score :=
  { s with
    tempo := s.tempo.map fun v => v.reread.canonical
    measures := s.measures.map Measure.reread }

/-- What holds of a score that was read from a text. -/
structure WasRead (s : Score) : Prop where
  tempo_within : ∀ v ∈ s.tempo, v.Within 126
  tempo_ne_null : ∀ v ∈ s.tempo, v.reread ≠ .null
  signature_fits : ∀ spec ∈ s.signature, spec.Fits
  measures : ∀ m ∈ s.measures, m.ReadWithin 122

variable {s : Score}

theorem tempo_of_read {v tempo : Json} {n : Nat} (hv : v.Within n) (hnull : v ≠ .null)
    (h : tempoReader v = .ok tempo) : tempo.Within n ∧ tempo.reread ≠ .null := by
  obtain ⟨v, hdocument, rfl⟩ := map_eq_ok.1 h
  unfold Reader.document at hdocument
  split at hdocument
  · rename_i hsound
    cases hdocument
    exact ⟨hv.canonical,
      hv.canonical.reread_ne_null (Json.sound_canonical hsound) (Json.canonical_ne_null hnull)⟩
  · cases hdocument

/-- A text that is read as a score is no deeper than the parser allows. -/
theorem wasRead_of_ofText {text : String} (h : ofText text = .ok s) : s.WasRead := by
  unfold ofText decode at h
  split at h
  · cases h
  rename_i v hparse
  have hv : v.Within (126 + 1) := Json.within_of_parse? hparse
  obtain ⟨members, hread, hmembers⟩ := Record.exists_of_read (mapError_eq_ok.1 h)
  obtain ⟨htempo, hsignature, hmeasures⟩ := fields_ok hread
  have htempo : ∀ v ∈ s.tempo, v.Within 126 ∧ v.reread ≠ .null := by
    intro w hw
    rcases Fields.exists_of_field htempo with hdefault | ⟨m, hm, h⟩
    · rw [← Except.ok.inj hdefault] at hw
      cases hw
    · obtain ⟨h, hnull⟩ := Reader.read_of_optional h w hw
      exact tempo_of_read (hv.of_mem_children (hmembers m hm)) hnull h
  have hmeasures : ∀ m ∈ s.measures, m.ReadWithin 122 := by
    intro m hm
    obtain ⟨member, hmember, c, hc, hread⟩ := Fields.exists_of_list hmeasures m hm
    have hmember := hv.of_mem_children (hmembers member hmember)
    exact Measure.readWithin_of_read (hmember.of_mem_children hc) hread
  exact ⟨fun v hv => (htempo v hv).1, fun v hv => (htempo v hv).2,
    Fields.Ensures.optional _ SignatureSpec.reader_ensures members _ hsignature, hmeasures⟩

theorem within_toJson (h : s.WasRead) : s.toJson.Within Json.maxDepth := by
  have htext (o : Option String) : ∀ v ∈ o.map Json.string, v.Within 126 :=
    Json.within_map fun t _ => .string t
  have hsignature : ∀ v ∈ s.signature.map SignatureSpec.toJson, v.Within 126 :=
    Json.within_map fun spec hspec => SignatureSpec.within_toJson (h.signature_fits spec hspec) _
  have hmeasures : (Json.array (s.measures.map Measure.toJson)).Within 126 :=
    Json.within_array_map fun m hm => Measure.within_toJson (h.measures m hm)
  refine Json.within_ofMembers ?_
  simp only [List.forall_mem_cons, Option.mem_def, Option.some.injEq, forall_eq']
  exact ⟨htext _, htext _, htext _, h.tempo_within, hsignature, hmeasures, by simp⟩

theorem read_toJson (h : s.WasRead) (source source' : Source) :
    (record source).read source' s.toJson.reread = .ok s.reread := by
  let ms : List (String × Option Json) :=
    [("piece_name", s.pieceName.map .string),
     ("composer", s.composer.map .string),
     ("key", s.key.map .string),
     ("tempo", s.tempo.map Json.reread),
     ("time_signature", s.signature.map SignatureSpec.toJson),
     ("measures", some (.array (s.measures.map fun m => m.toJson.reread)))]
  have hreread : s.toJson.reread = .object (Json.present ms) := by
    have htext (t : String) : (Json.string t).reread = .string t := rfl
    rw [toJson, Json.reread_ofMembers]
    simp only [List.map_cons, List.map_nil, Json.map_reread htext,
      Json.map_reread SignatureSpec.reread_toJson, Option.map_some, Json.reread_array,
      List.map_map]
    rfl
  have hnodup : (ms.map Prod.fst).Nodup := by simp [ms]
  have hmeasures : Reader.list ((Measure.record source).read source)
      (.array (s.measures.map fun m => m.toJson.reread)) = .ok (s.measures.map Measure.reread) :=
    Reader.list_map fun m hm => Measure.read_toJson (h.measures m hm) source source
  rw [hreread]
  refine Record.read_object (Fields.seq_eq_ok.2 ⟨_, s.measures.map Measure.reread,
    Fields.seq_eq_ok.2 ⟨_, s.signature, Fields.seq_eq_ok.2 ⟨_, _, Fields.seq_eq_ok.2 ⟨_, s.key,
      Fields.seq_eq_ok.2 ⟨_, s.composer, Fields.map_eq_ok.2 ⟨s.pieceName, ?_, rfl⟩,
        ?_, rfl⟩, ?_, rfl⟩, ?_, rfl⟩, ?_, rfl⟩, ?_, rfl⟩) source'
  · exact Fields.optional_present_self (f := Json.string) hnodup (by simp [ms]) (by simp)
      fun _ _ => rfl
  · exact Fields.optional_present_self (f := Json.string) hnodup (by simp [ms]) (by simp)
      fun _ _ => rfl
  · exact Fields.optional_present_self (f := Json.string) hnodup (by simp [ms]) (by simp)
      fun _ _ => rfl
  · refine Fields.optional_present hnodup (by simp [ms]) h.tempo_ne_null fun v hv => ?_
    rw [tempoReader, Reader.document, if_pos (h.tempo_within v hv).sound_reread]
    rfl
  · exact Fields.optional_present_self hnodup (by simp [ms]) SignatureSpec.toJson_ne_null
      fun spec hspec => SignatureSpec.reader_toJson (h.signature_fits spec hspec)
  · exact Fields.orDefault_present hnodup (by simp [ms]) (by simp) hmeasures

/-- Every score that was read comes back. -/
theorem ofText_text (h : s.WasRead) : ofText s.toJson.text = .ok s.reread :=
  decode_text (within_toJson h) le_rfl (read_toJson h .text .text)

end Score

end MeterCheck
