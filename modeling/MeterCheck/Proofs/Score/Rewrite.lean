import MeterCheck.Proofs.Decode.Rewrite
import MeterCheck.Proofs.Score.Agree
import MeterCheck.Verdict.Settings

/-!
# Presentations of scores

* `SignatureSpec.forms`, `Event.forms`, `Measure.forms`, `Score.forms`, `Settings.forms`: the fields
  of each record, and those of them for which null means the same as absence;
* `SignatureSpec.reader_respects`, `Measure.record_respects`, `Score.record_respects` and their
  siblings: what is read does not depend on the presentation.
-/

namespace MeterCheck

namespace SignatureSpec

def forms : List (String × Form) := [("numerator", .value), ("denominator", .value)]

variable {members members' : Members}

theorem part?_eq_some_iff {name : String} {n : Int} : part? name members = some n ↔
    Fields.valuesOf name members = [.int n] ∧ Text.isSigned64 n = true := by
  rw [Fields.valuesOf, ← Fields.map_snd_occurrences, part?]
  rcases Fields.occurrences name members with _ | ⟨⟨i, v⟩, _ | ⟨second, rest⟩⟩
  · simp
  · cases v with
    | int m =>
      by_cases hm : Text.isSigned64 m = true <;> simp [hm]
      · rintro rfl
        exact hm
      · rintro rfl
        simpa using hm
    | null | bool | double | string | array | object | flawed => simp
  · simp

theorem part?_of_rewrites {name : String} (hform : forms.lookup name = some .value)
    (h : Rewrites (.record forms) (.object members) (.object members')) :
    part? name members = part? name members' := by
  refine Option.ext fun n => ?_
  have hperm := (Fields.rewritesValues hform h).perm
  rw [part?_eq_some_iff, part?_eq_some_iff, ← List.perm_singleton, ← List.perm_singleton,
    hperm.congr_left]

/-- A pair is read from an object only. -/
theorem ofJson?_of_rewrites {v v' : Json} (h : Rewrites (.record forms) v v') :
    ofJson? v = ofJson? v' := by
  rcases h.record_cases with ⟨members, members', rfl, rfl⟩ | ⟨items, items', rfl, rfl⟩
  · rw [ofJson?, ofJson?, part?_of_rewrites rfl h, part?_of_rewrites rfl h]
  · rfl

theorem reader_respects : reader.Respects (.record forms) := by
  intro v v' h spec
  rw [reader_eq_ok, reader_eq_ok, h.sound_iff, ofJson?_of_rewrites h]

end SignatureSpec

variable (source : Source)

namespace Event

def forms : List (String × Form) := [("notes", .nullable (.list .value)), ("duration", .value)]

theorem record_respects : (record.read source).Respects (.record forms) := by
  refine Fields.Respects.record ?_ rfl (by decide) source
  apply Fields.Respects.seq
  · exact .map _ (.orDefault (.list (.value _)) rfl _)
  · exact .withDefault (.value _) rfl (by simp) _

end Event

namespace Measure

def forms : List (String × Form) :=
  [("id", .nullable .value), ("time_signature", .nullable (.record SignatureSpec.forms)),
   ("right_hand", .nullable (.list (.record Event.forms))),
   ("left_hand", .nullable (.list (.record Event.forms)))]

theorem fields_respect : (record source).fields.Respects forms := by
  have voice (hand : Hand) : Fields.Respects
      (.orDefault hand.key (Reader.list (Event.record.read source)) []) forms := by
    refine .orDefault (.list (Event.record_respects source)) ?_ _
    cases hand <;> rfl
  apply Fields.Respects.seq
  · apply Fields.Respects.seq
    · apply Fields.Respects.seq
      · exact .map _ (.orDefault (.value _) rfl _)
      · exact .optional SignatureSpec.reader_respects rfl
    · exact voice .right
  · exact voice .left

theorem record_respects : ((record source).read source).Respects (.record forms) :=
  (fields_respect source).record rfl (by decide) source

end Measure

namespace Score

def forms : List (String × Form) :=
  [("piece_name", .nullable .value), ("composer", .nullable .value), ("key", .nullable .value),
   ("tempo", .nullable .value), ("time_signature", .nullable (.record SignatureSpec.forms)),
   ("measures", .nullable (.list (.record Measure.forms)))]

/-- The fields of a score may stand among others. -/
theorem fields_respect {all : List (String × Form)}
    (hall : ∀ name form, forms.lookup name = some form → all.lookup name = some form) :
    (record source).fields.Respects all := by
  have plain {α : Type} {name : String} (read : Reader α)
      (hform : forms.lookup name = some (.nullable .value)) :
      (Fields.optional name read).Respects all :=
    .optional (.value read) (hall name _ hform)
  apply Fields.Respects.seq
  · apply Fields.Respects.seq
    · apply Fields.Respects.seq
      · apply Fields.Respects.seq
        · apply Fields.Respects.seq
          · exact .map _ (plain _ rfl)
          · exact plain _ rfl
        · exact plain _ rfl
      · exact plain _ rfl
    · exact .optional SignatureSpec.reader_respects (hall _ _ rfl)
  · exact .orDefault (.list (Measure.record_respects source)) (hall _ _ rfl) _

theorem record_respects : ((record source).read source).Respects (.record forms) :=
  (fields_respect source fun _ _ h => h).record rfl (by decide) source

end Score

namespace Settings

def forms : List (String × Form) :=
  [("boundary_measures", .value), ("minimum_partial_beats", .value)]

theorem record_respects : (record.read source).Respects (.record forms) := by
  refine Fields.Respects.record ?_ rfl (by decide) source
  apply Fields.Respects.seq
  · exact .map _ (.withDefault (.value _) rfl (by simp) _)
  · exact .withDefault (.value _) rfl (by simp) _

end Settings

end MeterCheck
