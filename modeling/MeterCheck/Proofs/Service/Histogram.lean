import MeterCheck.Proofs.Beats.Rational
import MeterCheck.Proofs.Duration.Bucket
import MeterCheck.Proofs.Service.Decode
import MeterCheck.Proofs.Table
import Mathlib.Algebra.BigOperators.Group.List.Basic

/-!
# What the histogram of durations tells

* `Score.Decoded`: the ways in which a score is read;
* `Score.Decoded.values_perm`: the values of all events, found again from the histogram;
* `Score.bucket_tells`: events in one bucket have one value, unless what counts is mistaken;
* `Score.bucket_mistaken`: the ways in which it can be.
-/

namespace MeterCheck

theorem Table.sum_spelled (t : Table Nat) (f : String → ℚ) :
    (t.spelled.map f).sum = (t.map fun e => e.2 * f e.1).sum := by
  unfold spelled
  induction t with
  | nil => rfl
  | cons e rest ih =>
    rw [List.flatMap_cons, List.map_append, List.sum_append, ih, List.map_replicate,
      List.sum_replicate, nsmul_eq_mul, List.map_cons, List.sum_cons]

namespace Score

/-- A score that is read from a text, from a value, or as part of a request. -/
inductive Decoded (s : Score) : Prop where
  | text {t : String} (reads : ofText t = .ok s)
  | value {v : Json} (reads : ofValue v = .ok s)
  | request {t : String} {settings : Settings}
      (reads : decode ScoreRequest.reader t = .ok ⟨s, settings⟩)

variable {s : Score}

theorem Decoded.exists_fields (h : s.Decoded) :
    ∃ source members, (record source).fields.read members = .ok s := by
  cases h with
  | text reads =>
    obtain ⟨v, -, hread⟩ := decode_eq_ok.1 reads
    exact ⟨.text, _, Record.read_members hread⟩
  | value reads => exact ⟨.value, _, Record.read_members reads⟩
  | request reads =>
    obtain ⟨members, -, hread⟩ := ScoreRequest.exists_of_decode reads
    exact ⟨.buffer, members, hread⟩

/-- Every duration of a score that is read comes from a part of a document. -/
theorem Decoded.exists_ofJson (h : s.Decoded) {e : Event} (he : e ∈ s.events) :
    ∃ v, e.duration = .ofJson v := by
  have hread : Duration.reader.Ensures fun d => ∃ v, d = .ofJson v :=
    fun v d hd => ⟨v, Duration.eq_of_reader hd⟩
  have hdefault : ∃ v, Event.defaultDuration = .ofJson v := by
    refine ⟨.string "quarter", ?_⟩
    rw [Duration.ofJson, Event.defaultDuration]
  obtain ⟨source, members, hfields⟩ := h.exists_fields
  have hall := Score.ensure_durations hread hdefault source members s hfields
  obtain ⟨m, hm, hmem⟩ := List.mem_flatMap.1 he
  obtain ⟨hand, hmem⟩ := Measure.mem_events.1 hmem
  exact hall m hm hand e hmem

/-- The values that the buckets tell are those of the events, as often as they are counted. -/
theorem Decoded.values_perm (h : s.Decoded) (hlegible : ∀ e ∈ s.events, e.duration.Legible) :
    (s.statistics.durations.spelled.map Duration.bucketValue).Perm
      (s.events.map fun e => e.duration.value) := by
  have hvalues : (s.events.map fun e => e.duration.bucket).map Duration.bucketValue =
      s.events.map fun e => e.duration.value := by
    rw [List.map_map]
    apply List.map_congr_left
    intro e he
    obtain ⟨v, hv⟩ := h.exists_ofJson he
    have hv' := hlegible e he
    rw [Function.comp_apply, hv]
    exact Duration.bucketValue_bucket (hv ▸ hv')
  rw [← hvalues]
  exact (Table.spelled_counts _).map _

/--
**What a bucket tells.** In a score that was read, two durations in one bucket have one value if
both are lists, or neither is, and what counts in each is clear. Two that are no lists are known or
unknown together. Only an object, whose text may have a comma, and a list in which a text counts,
which may have a comma or a bracket, need not be clear. Where all is clear, and no text looks like a
list, the values of all events are found again from the histogram, and so is their sum.
-/
theorem bucket_tells (h : s.Decoded) :
    (∀ a ∈ s.events, ∀ b ∈ s.events, a.duration.bucket = b.duration.bucket →
      a.duration.isList = b.duration.isList →
      (a.duration.Clear → b.duration.Clear → a.duration.value = b.duration.value) ∧
      (a.duration.isList = false →
        a.duration.value.recognized = b.duration.value.recognized ∧
        ((a.duration.Clear ↔ b.duration.Clear) → a.duration.value = b.duration.value))) ∧
    (∀ e ∈ s.events, e.duration.Clear ∨ (∃ members, e.duration = .ofJson (.object members)) ∨
      e.duration.EndsInText) ∧
    ((∀ e ∈ s.events, e.duration.Legible) →
      (s.statistics.durations.spelled.map Duration.bucketValue).Perm
        (s.events.map fun e => e.duration.value) ∧
      (s.events.map fun e => e.duration.value.beats.toRat).sum = (s.statistics.durations.map
        fun n => n.2 * (Duration.bucketValue n.1).beats.toRat).sum) := by
  refine ⟨?pairs, ?clear, ?histogram⟩
  case pairs =>
    intro a ha b hb hbucket hlist
    obtain ⟨v, hv⟩ := h.exists_ofJson ha
    obtain ⟨w, hw⟩ := h.exists_ofJson hb
    rw [hv, hw] at hbucket hlist ⊢
    refine ⟨Duration.value_eq_of_clear hbucket hlist, ?_⟩
    intro hv'
    have hw' := hlist ▸ hv'
    exact ⟨Duration.recognized_eq_of_bucket hbucket hv' hw',
      Duration.value_eq_of_bucket hbucket hv' hw'⟩
  case clear =>
    intro e he
    obtain ⟨v, hv⟩ := h.exists_ofJson he
    rw [hv]
    obtain hclear | ⟨members, rfl⟩ | hends := Duration.clear_or_of_ofJson v
    · exact .inl hclear
    · exact .inr (.inl ⟨members, rfl⟩)
    · exact .inr (.inr hends)
  case histogram =>
    intro hlegible
    have hperm := h.values_perm hlegible
    refine ⟨hperm, ?_⟩
    have hsum := (hperm.map fun v => v.beats.toRat).sum_eq
    rw [List.map_map, List.map_map] at hsum
    exact hsum.symm.trans (Table.sum_spelled _ _)

/-- Lists with a number, a truth value and texts, null, and an object. -/
def mixedValue : Json :=
  .object [("measures", .array [.object
    [("right_hand", .array
      [.object [("duration", .array [.int 1, .string " Half"])],
       .object [("duration", .array [.bool true, .string "half"])],
       .object [("duration", .null)]]),
     ("left_hand", .array
      [.object [("duration", .array [.int 1, .string "half"])],
       .object [("duration", .object [("a", .int 7)])]])]])]

/-- Three of five events are worth two beats each, as their buckets tell. -/
theorem bucket_tells_of_mixed :
    let d (first : String) : Duration := .sequence [.piece (.name first), .piece (.name "half")]
    let object : Duration := .piece (.name "\x7b\"a\":7\x7d")
    let s : Score := .ofMeasures [⟨.unknown, none,
      ⟨[⟨[], d "1"⟩, ⟨[], d "true"⟩, ⟨[], .blank⟩], [⟨[], d "1"⟩, ⟨[], object⟩]⟩⟩]
    ofValue mixedValue = .ok s ∧ (∀ e ∈ s.events, e.duration.Legible) ∧
      s.statistics.durations =
        [("[1, half]", 2), ("[true, half]", 1), ("unknown", 1), ("\x7b\"a\":7\x7d", 1)] ∧
      (s.statistics.durations.map fun n => n.2 * (Duration.bucketValue n.1).beats.toRat).sum =
        6 := by
  intro d object s
  have hread : ofValue mixedValue = .ok s := rfl
  obtain ⟨-, -, hhistogram⟩ := bucket_tells (.value hread)
  have hd (first : String) : (d first).Legible :=
    ⟨⟨.name "half", rfl, .inl (by decide)⟩, fun _ => rfl⟩
  have hblank : Duration.blank.Legible := ⟨Duration.clear_blank, by decide⟩
  have hobject : object.Legible := ⟨by unfold object Duration.Clear; decide, by decide⟩
  have hlegible : ∀ e ∈ s.events, e.duration.Legible := by
    have hevents : s.events =
        [⟨[], d "1"⟩, ⟨[], d "true"⟩, ⟨[], .blank⟩, ⟨[], d "1"⟩, ⟨[], object⟩] := rfl
    intro e he
    simp only [hevents, List.mem_cons, List.not_mem_nil, or_false] at he
    obtain rfl | rfl | rfl | rfl | rfl := he
    · exact hd "1"
    · exact hd "true"
    · exact hblank
    · exact hd "1"
    · exact hobject
  obtain ⟨-, hsum⟩ := hhistogram hlegible
  refine ⟨hread, hlegible, by decide +kernel, ?_⟩
  rw [← hsum]
  decide +kernel

/-- In the right hand lists and an object, in the left hand what is written as they are. -/
def mistakenValue : Json :=
  .object [("measures", .array [.object
    [("right_hand", .array
      [.object [("duration", .array [.string "half"])],
       .object [("duration", .array [.string "half, half"])],
       .object [("duration", .array [.array [.string "half"]])],
       .object [("duration", .object [("", .string ", half, ")])]]),
     ("left_hand", .array
      [.object [("duration", .string "[half]")],
       .object [("duration", .array [.string "half", .string "half"])],
       .object [("duration", .array [.string "[half]"])],
       .object [("duration", .string "\x7b\"\":\", half, \"\x7d")]])]])]

/--
A list shares its bucket with a text, a text in a list with a list and with a text that has
brackets, and an object with a text, but none of them shares its value.
-/
theorem bucket_mistaken :
    let half : Duration := .piece (.name "half")
    let object : Duration := .piece (.name "\x7b\"\":\", half, \"\x7d")
    let right : List Event := [⟨[], .sequence [half]⟩,
      ⟨[], .sequence [.sum [.name "half", .name "half"]]⟩, ⟨[], .sequence [.sequence [half]]⟩,
      ⟨[], object⟩]
    let left : List Event := [⟨[], .piece (.name "[half]")⟩, ⟨[], .sequence [half, half]⟩,
      ⟨[], .sequence [.piece (.name "[half]")]⟩,
      ⟨[], .sum [.name "\x7b\"\":\"", .name "half", .name "\"\x7d"]⟩]
    ofValue mistakenValue = .ok (.ofMeasures [⟨.unknown, none, ⟨right, left⟩⟩]) ∧
      List.Forall₂ (fun a b : Event => a.duration.bucket = b.duration.bucket ∧
        a.duration.value ≠ b.duration.value) right left := by
  intro half object right left
  constructor
  · rfl
  · decide +kernel

end Score

end MeterCheck
