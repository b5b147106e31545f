import MeterCheck.Proofs.Decode.Origin
import MeterCheck.Proofs.Score.Written

/-!
# Measures and the documents they come from

* `Json.measureId`: the identifier of a measure as it stands in its document;
* `Score.ids_of_read`: the measures of a score have these identifiers, in order;
* `Score.voiceSize`: the notes and events of one hand, which the document is larger than.
-/

namespace MeterCheck

/-! ## Identifiers -/

theorem MeasureId.toJson_of_read {v : Json} {id : MeasureId} (h : reader v = .ok id) :
    id.toJson = v := by
  unfold reader at h
  split at h
  · split at h
    · cases h
      rfl
    · cases h
  · cases h
    rfl
  · cases h

/-- The identifier of a measure, a question mark if it is missing or null. -/
def Json.measureId (v : Json) : Json :=
  match ((Measure.record .text).members v).lookup "id" with
  | none => .string "?"
  | some .null => .string "?"
  | some id => id

/-- The identifiers of the measures that an object has. -/
def Members.measureIds (members : Members) : List Json :=
  ((members.lookup "measures").elim [] Json.children).map Json.measureId

variable {source : Source}

theorem Measure.members_eq (source : Source) (v : Json) :
    (record .text).members v = (record source).members v :=
  Record.members_congr rfl v

theorem Measure.id_of_read {v : Json} {m : Measure} (h : (record source).read source v = .ok m) :
    m.id.toJson = v.measureId := by
  have hid := (fields_ok (Record.read_members h)).1
  rw [Json.measureId, members_eq source]
  rcases Fields.lookup_of_orDefault hid with ⟨hnone | hnull, hdefault⟩ | ⟨w, hw, hnull, hread⟩
  · rw [hnone, hdefault]
    rfl
  · rw [hnull, hdefault]
    rfl
  · rw [hw, MeasureId.toJson_of_read hread]
    cases w <;> first | rfl | exact absurd rfl hnull

theorem Score.ids_of_read {members : Members} {s : Score}
    (h : (record source).fields.read members = .ok s) :
    (s.measures.map fun m => m.id.toJson) = members.measureIds := by
  obtain ⟨-, -, hmeasures⟩ := fields_ok h
  rw [Members.measureIds]
  rcases Fields.lookup_of_orDefault hmeasures with ⟨hnone | hnull, hdefault⟩ | ⟨v, hv, -, hread⟩
  · rw [hnone, hdefault]
    rfl
  · rw [hnull, hdefault]
    rfl
  · rw [hv]
    exact Reader.map_of_list hread fun v m => Measure.id_of_read

/-! ## Sizes -/

/-- The events of a list and their notes. -/
def eventsSize (events : List Event) : Nat := (events.map fun e => e.notes.length + 1).sum

def Measure.voiceSize (hand : Hand) (m : Measure) : Nat := eventsSize (m.voice hand)

/-- The measures, and the events of one hand with their notes. -/
def Score.voiceSize (hand : Hand) (s : Score) : Nat :=
  (s.measures.map fun m => m.voiceSize hand + 1).sum

theorem Event.notes_of_read {members : Members} {e : Event}
    (h : Event.record.fields.read members = .ok e) :
    (Fields.orDefault "notes" (Reader.list Reader.text) []).read members = .ok e.notes := by
  obtain ⟨_, duration, hnotes, _, rfl⟩ := Fields.seq_eq_ok.1 h
  obtain ⟨notes, hread, rfl⟩ := Fields.map_eq_ok.1 hnotes
  exact hread

theorem Event.sized (source : Source) :
    (Event.record.read source).Sized fun e => e.notes.length := by
  refine Fields.Sized.record (fun members e n h hn => ?_) source
  have hsized := Fields.Sized.list Reader.text_sized "notes"
  simpa using hsized members e.notes n (notes_of_read h) hn

theorem Measure.sized (source : Source) (hand : Hand) :
    ((Measure.record source).read source).Sized (Measure.voiceSize hand) := by
  refine Fields.Sized.record (fun members m n h hn => ?_) source
  exact Fields.Sized.list (Event.sized source) hand.key members _ n ((fields_ok h).2.2 hand) hn

theorem Score.fields_sized (source : Source) (hand : Hand) :
    (Score.record source).fields.Sized (Score.voiceSize hand) := by
  intro members s n h hn
  exact Fields.Sized.list (Measure.sized source hand) "measures" members _ n (fields_ok h).2.2 hn

end MeterCheck
