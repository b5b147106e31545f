import MeterCheck.Proofs.Duration.Regular
import MeterCheck.Proofs.Score.Statistics
import MeterCheck.Proofs.Service.Histogram
import MeterCheck.Proofs.Text.Bytes

/-!
# What statistics count

* `Score.countEvents`: the events of a hand that have a property, measure by measure;
* `Duration.bucket_ne_empty`: no duration that is read is counted under the empty name;
* `Score.statistics_exact`: every event is counted once, and every pitch is listed once.
-/

namespace MeterCheck

theorem Duration.bucket_ne_empty (v : Json) : (ofJson v).bucket ≠ "" := by
  cases hblank : (ofJson v).isBlank with
  | true =>
    rw [bucket, if_pos hblank]
    decide
  | false =>
    rw [bucket, if_neg (by simp [hblank])]
    exact (regular_ofJson v).text_ne_empty hblank

theorem Event.mem_pitches {e : Event} {pitch : String} :
    pitch ∈ e.pitches ↔ pitch ∈ e.notes ∧ pitch ≠ "Rest" := by
  rw [pitches, List.mem_filter, bne_iff_ne]
  rfl

namespace Score

variable {s : Score}

/-- The events of a hand that have a property. -/
def countEvents (s : Score) (hand : Hand) (p : Event → Bool) : Nat :=
  (s.measures.map fun m => (m.voice hand).countP p).sum

/-- The events of a score are those of its measures. -/
theorem mem_events_iff {e : Event} :
    e ∈ s.events ↔ ∃ m ∈ s.measures, ∃ hand, e ∈ m.voice hand := by
  simp only [events, List.mem_flatMap, Measure.mem_events]

theorem countP_events (s : Score) (p : Event → Bool) :
    s.events.countP p = s.countEvents .right p + s.countEvents .left p := by
  unfold events countEvents
  induction s.measures with
  | nil => rfl
  | cons m measures ih =>
    simp only [List.flatMap_cons, List.countP_append, List.map_cons, List.sum_cons, ih,
      Measure.events, Measure.voice, Hands.get]
    omega

/-- A score has as many events as its hands. -/
theorem length_events (s : Score) : s.events.length =
    (s.measures.map fun m => (m.voice .right).length).sum +
      (s.measures.map fun m => (m.voice .left).length).sum := by
  have hall := s.countP_events fun _ => true
  simpa only [countEvents, List.countP_true] using hall

theorem count_buckets (s : Score) (name : String) :
    (s.events.map fun e => e.duration.bucket).count name =
      s.countEvents .right (fun e => e.duration.bucket == name) +
        s.countEvents .left fun e => e.duration.bucket == name := by
  rw [List.count, List.countP_map, countP_events]
  rfl

theorem mem_statistics_pitches {pitch : String} :
    pitch ∈ s.statistics.pitches ↔ ∃ e ∈ s.events, pitch ∈ e.notes ∧ pitch ≠ "Rest" := by
  change pitch ∈ Table.names _ ↔ _
  rw [Table.mem_names, List.mem_flatMap]
  simp only [Event.mem_pitches]

/--
**Statistics lose and invent nothing.** Each hand has the number of its events in all measures, and
the score has as many as both hands, which is what the counts of the durations add up to. Under each
name of a duration, none of which is empty, stands the number of events that are counted there, and
a name under which there are none is left out. The pitches are the notes of all events other than
rests, each of them once, in the order of their bytes.
-/
theorem statistics_exact (h : s.Decoded) :
    let t := s.statistics
    (∀ hand, t.events.get hand = (s.measures.map fun m => (m.voice hand).length).sum) ∧
    t.totalEvents = t.events.right + t.events.left ∧
    t.totalEvents = (t.durations.map Prod.snd).sum ∧
    (t.durations.map Prod.fst).Nodup ∧
    (∀ name n, (name, n) ∈ t.durations ↔ 0 < n ∧
      n = s.countEvents .right (fun e => e.duration.bucket == name) +
        s.countEvents .left fun e => e.duration.bucket == name) ∧
    (∀ name n, (name, n) ∈ t.durations → name ≠ "") ∧
    t.pitches.Pairwise (fun a b => Text.bytes a < Text.bytes b) ∧
    (∀ pitch, pitch ∈ t.pitches ↔
      pitch ≠ "Rest" ∧ ∃ m ∈ s.measures, ∃ hand, ∃ e ∈ m.voice hand, pitch ∈ e.notes) ∧
    t.pitchCount = t.pitches.length := by
  intro t
  have hcounts {name : String} {n : Nat} : (name, n) ∈ t.durations ↔ 0 < n ∧
      n = (s.events.map fun e => e.duration.bucket).count name := Table.mem_counts
  have hhands (hand : Hand) : t.events.get hand =
      (s.measures.map fun m => (m.voice hand).length).sum :=
    (Hands.get_ofFn _ hand).trans List.length_flatMap
  refine ⟨hhands, rfl, ?total, (Table.sorted_counts _).nodup, fun name n => ?counts,
    fun name n hmem => ?names, ?order, fun pitch => ?pitches, rfl⟩
  case total =>
    have htotal : (t.durations.map Prod.snd).sum = s.events.length :=
      (Table.total_counts _).trans (List.length_map _)
    have hboth : s.events.length = t.events.right + t.events.left :=
      s.length_events.trans (congrArg₂ (· + ·) (hhands .right).symm (hhands .left).symm)
    exact (htotal.trans hboth).symm
  case counts => rw [hcounts, count_buckets]
  case names =>
    obtain ⟨hpos, rfl⟩ := hcounts.1 hmem
    obtain ⟨e, he, rfl⟩ := List.mem_map.1 (List.count_pos_iff.1 hpos)
    obtain ⟨v, hv⟩ := h.exists_ofJson he
    rw [hv]
    exact Duration.bucket_ne_empty v
  case order => exact (Table.pairwise_names _).imp Text.bytes_lt_iff.2
  case pitches =>
    rw [mem_statistics_pitches]
    constructor
    · rintro ⟨e, he, hnote, hrest⟩
      obtain ⟨m, hm, hand, he⟩ := mem_events_iff.1 he
      exact ⟨hrest, m, hm, hand, e, he, hnote⟩
    · rintro ⟨hrest, m, hm, hand, e, he, hnote⟩
      exact ⟨e, mem_events_iff.2 ⟨m, hm, hand, he⟩, hnote, hrest⟩

/-- A chord with a repeated note, a rest, and durations that are missing, null and an object. -/
def chordValue : Json :=
  .object [("measures", .array [
    .object [("right_hand", .array
      [.object [("notes", .array [.string "e4", .string "C4", .string "e4"])],
       .object [("notes", .array [.string "Rest"]), ("duration", .null)]])],
    .object [("left_hand", .array
      [.object
        [("notes", .array [.string "\u00e94", .string "C4"]), ("duration", .string "QUARTER")],
       .object [("duration", .object [])]])]])]

/-- Three names of durations for four events, and three pitches. -/
theorem statistics_exact_of_chord :
    let quarter : Duration := .piece (.name "quarter")
    let s : Score := .ofMeasures
      [⟨.unknown, none, ⟨[⟨["e4", "C4", "e4"], quarter⟩, ⟨["Rest"], .blank⟩], []⟩⟩,
       ⟨.unknown, none, ⟨[], [⟨["\u00e94", "C4"], quarter⟩, ⟨[], .piece (.name "\x7b\x7d")⟩]⟩⟩]
    ofValue chordValue = .ok s ∧ s.statistics.totalEvents = 4 ∧
      s.statistics.durations = [("quarter", 2), ("unknown", 1), ("\x7b\x7d", 1)] ∧
      (s.statistics.durations.map Prod.snd).sum = 4 ∧
      s.statistics.pitches = ["C4", "e4", "\u00e94"] ∧
      s.statistics.pitches.Pairwise (fun a b => Text.bytes a < Text.bytes b) := by
  intro quarter s
  have hread : ofValue chordValue = .ok s := rfl
  obtain ⟨-, -, htotal, -, -, -, horder, -, -⟩ := statistics_exact (.value hread)
  exact ⟨hread, rfl, by decide +kernel, htotal.symm, by decide +kernel, horder⟩

end Score

end MeterCheck
