import MeterCheck.Proofs.Decode.Agree
import MeterCheck.Proofs.Score.Written

/-!
# Scores in a text and in its value

* `SignatureSpec.reader_agrees`, `MeasureId.reader_agrees`, `Duration.reader_agrees`: values that
  come in several forms;
* `Event.record_agrees`, `Measure.record_agrees`, `Score.record_agrees`: records, read from any two
  sources.
-/

namespace MeterCheck

namespace SignatureSpec

variable {members members' : Members}

theorem part?_eq_some {name : String} (hnodup : (members.map Prod.fst).Nodup) {n : Int} :
    part? name members = some n ↔ (name, .int n) ∈ members ∧ Text.isSigned64 n = true := by
  by_cases hname : name ∈ members.map Prod.fst
  · obtain ⟨⟨_, v⟩, hv, rfl⟩ := List.mem_map.1 hname
    obtain ⟨i, hoccurrences⟩ := Fields.occurrences_of_mem hnodup hv
    constructor
    · intro h
      simp only [part?, hoccurrences] at h
      split at h
      · rename_i hone
        cases hone
        split at h
        · rename_i hword
          cases h
          exact ⟨hv, hword⟩
        · cases h
      · cases h
    · rintro ⟨hn, hword⟩
      cases List.inj_on_of_nodup_map hnodup hv hn rfl
      simp only [part?, hoccurrences, hword, ↓reduceIte]
  · have hnone : (name, .int n) ∉ members := fun hn => hname (List.mem_map_of_mem hn)
    simp only [part?, Fields.occurrences_of_not_mem hname, hnone, false_and, reduceCtorEq]

theorem part?_of_stands (h : members.Stands members') (name : String) :
    part? name members' = part? name members := by
  refine Option.ext fun n => ?_
  have hnodup := h.map_fst_perm.symm.nodup h.nodup
  rw [part?_eq_some h.nodup, part?_eq_some hnodup, h.mem_iff]
  refine and_congr_left fun _ => ?_
  constructor
  · rintro ⟨v, hv, heq⟩
    rwa [← Json.canonical_eq_int.1 heq]
  · intro hn
    exact ⟨.int n, hn, rfl⟩

theorem ofJson?_canonical {v : Json} (hv : v.Plain) : ofJson? v.canonical = ofJson? v := by
  cases v with
  | object members =>
    have hpart := part?_of_stands (.of_object hv)
    rw [Json.canonical_object]
    simp only [ofJson?, hpart]
  | array items => rw [Json.canonical_array]; rfl
  | null | bool | int | double | string | flawed => rfl

theorem reader_eq_ok {v : Json} {spec : SignatureSpec} :
    reader v = .ok spec ↔ v.sound = true ∧ ofJson? v = some spec := by
  constructor
  · intro h
    obtain ⟨w, hw, h⟩ := bind_eq_ok.1 h
    unfold Reader.document at hw
    split at hw
    · rename_i hsound
      cases hw
      split at h
      · rename_i hspec
        cases h
        exact ⟨hsound, hspec⟩
      · cases h
    · cases hw
  · rintro ⟨hv, h⟩
    exact reader_of_ofJson? hv h

theorem reader_agrees : reader.Agrees reader := by
  intro v hv spec
  rw [reader_eq_ok, reader_eq_ok, ofJson?_canonical hv]
  simp only [hv.sound, Json.sound_canonical hv.sound]

end SignatureSpec

theorem MeasureId.reader_agrees : reader.Agrees reader := by
  intro v _ id
  cases v with
  | array | object => simp [reader, Json.canonical]
  | null | bool | int | double | string | flawed => exact Iff.rfl

namespace Duration

theorem ofScalar_canonical (v : Json) : ofScalar v.canonical = ofScalar v := by
  rw [ofScalar, ofScalar, Json.canonical_canonical]

theorem ofJson_canonical (v : Json) : ofJson v.canonical = ofJson v := by
  induction v using Json.induct with
  | array items ih =>
    rw [Json.canonical_array]
    cases items with
    | nil => rfl
    | cons v rest =>
      obtain ⟨hv, hrest⟩ := List.forall_mem_cons.1 ih
      rw [List.map_cons, ofJson, ofJson, ofItems_eq_map, ofItems_eq_map, List.map_map, hv]
      exact congrArg (fun ds => sequence (_ :: ds)) (List.map_congr_left hrest)
  | object members =>
    have h := ofScalar_canonical (.object members)
    rw [Json.canonical_object] at h ⊢
    exact h
  | null | bool | int | double | string | flawed => rfl

theorem reader_agrees : reader.Agrees reader := .document ofJson_canonical

end Duration

/-! ## Records -/

variable (source source' : Source)

theorem Event.record_agrees : (record.read source).Agrees (record.read source') := by
  refine Fields.Agrees.record ?_ rfl (by decide) source source'
  apply Fields.Agrees.seq
  · exact .map _ (.orDefault (.list .text) _ _)
  · exact .withDefault Duration.reader_agrees _ _

namespace Measure

theorem fields_agree : (record source).fields.Agrees (record source').fields := by
  have voice (hand : Hand) : Fields.Agrees
      (.orDefault hand.key (Reader.list (Event.record.read source)) [])
      (.orDefault hand.key (Reader.list (Event.record.read source')) []) :=
    .orDefault (.list (Event.record_agrees source source')) _ _
  apply Fields.Agrees.seq
  · apply Fields.Agrees.seq
    · apply Fields.Agrees.seq
      · exact .map _ (.orDefault MeasureId.reader_agrees _ _)
      · exact .optional SignatureSpec.reader_agrees _
    · exact voice .right
  · exact voice .left

theorem nodup_names : (record source).fields.names.Nodup := by
  cases source <;> decide

theorem record_agrees : ((record source).read source).Agrees ((record source').read source') :=
  (fields_agree source source').record rfl (nodup_names source) source source'

end Measure

namespace Score

theorem tempoReader_agrees : Reader.Agrees tempoReader tempoReader :=
  .document Json.canonical_canonical

theorem fields_agree : (record source).fields.Agrees (record source').fields := by
  have measures : Fields.Agrees
      (.orDefault "measures" (Reader.list ((Measure.record source).read source)) [])
      (.orDefault "measures" (Reader.list ((Measure.record source').read source')) []) :=
    .orDefault (.list (Measure.record_agrees source source')) _ _
  have texts (name : String) : Fields.Agrees
      (.optional name Reader.text) (.optional name Reader.text) :=
    .optional .text name
  apply Fields.Agrees.seq
  · apply Fields.Agrees.seq
    · apply Fields.Agrees.seq
      · apply Fields.Agrees.seq
        · apply Fields.Agrees.seq
          · exact .map _ (texts _)
          · exact texts _
        · exact texts _
      · exact .optional tempoReader_agrees _
    · exact .optional SignatureSpec.reader_agrees _
  · exact measures

theorem nodup_names : (record source).fields.names.Nodup := by
  cases source <;> decide

theorem record_agrees : ((record source).read source).Agrees ((record source').read source') :=
  (fields_agree source source').record rfl (nodup_names source) source source'

end Score

end MeterCheck
