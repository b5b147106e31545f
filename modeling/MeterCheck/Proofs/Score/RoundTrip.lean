import MeterCheck.Proofs.Report.Revise
import MeterCheck.Proofs.Score.Written
import MeterCheck.Score.Statistics

/-!
# What a score keeps

A score that is written and read again keeps everything but some durations. One that was given as an
object is an unknown name, and is written as the text of that name. Where the text has a comma, it
comes back as a sum, which may be worth something.

* `Score.statistics_reread`: the statistics, but for the tempo and the names of durations;
* `Score.revises_reread`: the marks of all events, and all identifiers and signatures;
* `Score.written_form_keeps`: so for every text that is read as a score.
-/

namespace MeterCheck

/-- Every duration comes back with its value. -/
def Measure.Restored (m : Measure) : Prop :=
  ∀ e ∈ m.events, e.duration.reread.value = e.duration.value

theorem Measure.voice_reread (m : Measure) (hand : Hand) :
    m.reread.voice hand = (m.voice hand).map Event.reread := by
  simp [voice, reread]

theorem Measure.events_reread (m : Measure) : m.reread.events = m.events.map Event.reread := by
  simp [events, reread, Hands.map]

theorem Measure.revises_reread {m : Measure} (h : ∀ e ∈ m.events, e.duration.Rereads) :
    m.Revises m.reread := by
  refine ⟨rfl, rfl, fun hand => ?_⟩
  rw [Measure.voice_reread, marks, marks, List.map_map]
  exact List.map_congr_left fun e he => (h e (Measure.mem_events.2 ⟨_, he⟩)).recognized

theorem Measure.Restored.values_eq {m : Measure} (h : m.Restored) (hand : Hand) :
    values (m.reread.voice hand) = values (m.voice hand) := by
  rw [Measure.voice_reread, values, values, List.map_map]
  exact List.map_congr_left fun e he => h e (Measure.mem_events.2 ⟨hand, he⟩)

namespace Score

variable {s : Score}

theorem mem_events {m : Measure} {e : Event} (hm : m ∈ s.measures) (he : e ∈ m.events) :
    e ∈ s.events :=
  List.mem_flatMap.2 ⟨m, hm, he⟩

theorem events_reread (s : Score) : s.reread.events = s.events.map Event.reread := by
  simp only [events, reread, List.flatMap_map, Measure.events_reread, List.map_flatMap]

/-- Events and pitches do not change, and each duration is counted under the name it has now. -/
theorem statistics_reread (s : Score) : s.reread.statistics =
    { s.statistics with
      tempo := s.reread.tempoText
      durations := Table.counts (s.events.map fun e => e.duration.reread.bucket) } := by
  have hcount (hand : Hand) : (s.reread.measures.flatMap fun m => m.voice hand).length =
      (s.measures.flatMap fun m => m.voice hand).length := by
    simp only [reread, List.length_flatMap, List.map_map]
    congr 1
    refine List.map_congr_left fun m _ => ?_
    simp [Measure.voice_reread]
  have hpitches : (s.events.map Event.reread).flatMap Event.pitches =
      s.events.flatMap Event.pitches :=
    List.flatMap_map Event.reread Event.pitches s.events
  have hlength : s.reread.measures.length = s.measures.length := by simp [reread]
  simp only [statistics, hcount, hlength, events_reread, hpitches, List.map_map]
  rfl

theorem WasRead.rereads (h : s.WasRead) {e : Event} (he : e ∈ s.events) : e.duration.Rereads := by
  obtain ⟨m, hm, he⟩ := List.mem_flatMap.1 he
  obtain ⟨hand, he⟩ := Measure.mem_events.1 he
  exact ((h.measures m hm).events hand e he).rereads

theorem revises_reread (h : ∀ e ∈ s.events, e.duration.Rereads) : s.Revises s.reread := by
  refine ⟨rfl, ?_⟩
  rw [reread, List.forall₂_map_right_iff, List.forall₂_same]
  exact fun m hm => Measure.revises_reread fun e he => h e (mem_events hm he)

theorem getElem?_of_reread {i : Nat} {m' : Measure} (h : s.reread.measures[i]? = some m') :
    ∃ m, s.measures[i]? = some m ∧ m' = m.reread := by
  rw [reread, List.getElem?_map, Option.map_eq_some_iff] at h
  obtain ⟨m, hm, rfl⟩ := h
  exact ⟨m, hm, rfl⟩

/--
**What is written is read again, with the same answers.** Every score that was read from a text
comes back. Each event is known or unknown as before, and its duration keeps its value unless it is
an unknown name with a comma. The statistics keep everything but the tempo and the names of
durations, and those too if no name has a comma. For any settings there is the same error, or a
report with the same signatures, positions and marks, in which the result of a measure is the same
if its durations keep their values.
-/
theorem written_form_keeps {text : String} (h : ofText text = .ok s) :
    ofText s.toJson.text = .ok s.reread ∧
      (∀ e ∈ s.events, e.duration.Rereads) ∧
      s.reread.statistics = { s.statistics with
        tempo := s.reread.tempoText
        durations := Table.counts (s.events.map fun e => e.duration.reread.bucket) } ∧
      ((∀ e ∈ s.events, ∀ p ∈ e.duration.pieces, ¬ p.HasComma) →
        s.reread.statistics.durations = s.statistics.durations) ∧
      ∀ settings,
        (∀ e, s.reread.validate settings = .error e ↔ s.validate settings = .error e) ∧
        (∀ r, s.validate settings = .ok r → ∃ r', s.reread.validate settings = .ok r' ∧
          r'.signature = r.signature ∧ r'.total = r.total ∧
          ∀ (i : Nat) m, s.measures[i]? = some m → ∃ x x', r.results[i]? = some x ∧
            r'.results[i]? = some x' ∧ x.Agrees x' ∧ (m.Restored → x' = x)) ∧
        ((∀ m ∈ s.measures, m.Restored) → s.reread.validate settings = s.validate settings) := by
  have hread := wasRead_of_ofText h
  have hrereads : ∀ e ∈ s.events, e.duration.Rereads := fun _ => hread.rereads
  have hrevises := revises_reread hrereads
  refine ⟨ofText_text hread, hrereads, statistics_reread s, fun hcomma => ?_,
    fun settings => ⟨fun e => hrevises.error_iff, ?_, ?_⟩⟩
  · rw [statistics_reread]
    change Table.counts _ = Table.counts _
    congr 1
    exact List.map_congr_left fun e he => congrArg _ ((hrereads e he).same (hcomma e he))
  · intro r hr
    obtain ⟨r', hr', hsignature, htotal, hresults⟩ := hrevises.exists_report hr
    refine ⟨r', hr', hsignature, htotal, fun i m hm => ?_⟩
    have hm' : s.reread.measures[i]? = some m.reread := by
      rw [reread, List.getElem?_map, hm, Option.map_some]
    have hmeasure : m.Revises m.reread :=
      Measure.revises_reread fun e he => hrereads e (mem_events (List.mem_of_getElem? hm) he)
    obtain ⟨own, position, hx, hx'⟩ := hresults i m m.reread hm hm'
    exact ⟨_, _, hx, hx', hmeasure.agrees own position settings,
      fun hrestored => hmeasure.judge_eq hrestored.values_eq own position settings⟩
  · intro hrestored
    refine hrevises.validate_eq_of_values (fun i m m' hm hm' => ?_) settings
    obtain ⟨m, hm2, rfl⟩ := getElem?_of_reread hm'
    cases hm.symm.trans hm2
    exact (hrestored m (List.mem_of_getElem? hm)).values_eq

/-- A measure with a list that has a sum at its end. -/
def sumText : String :=
  "\x7b\"measures\":[\x7b\"id\":7,\"left_hand\":[\x7b\"duration\":[1,\"Half,half\"]\x7d]\x7d]\x7d"

/-- A measure with an object whose text has a note value between commas. -/
def objectText : String :=
  "\x7b\"measures\":[\x7b\"right_hand\":[\x7b\"duration\":"
    ++ "\x7b\"a\":\"x, half, y\"\x7d\x7d]\x7d]\x7d"

set_option maxRecDepth 20000 in
theorem parse_sumText : Json.parse? sumText = some (.object [("measures", .array [.object
    [("id", .int 7), ("left_hand", .array [.object
      [("duration", .array [.int 1, .string "Half,half"])]])]])]) := by
  rfl

set_option maxRecDepth 20000 in
theorem parse_objectText : Json.parse? objectText = some (.object [("measures", .array [.object
    [("right_hand", .array [.object
      [("duration", .object [("a", .string "x, half, y")])]])]])]) := by
  rfl

/-- The sum comes back as it was. -/
theorem written_form_keeps_of_sum :
    let d : Duration := .sequence [.piece (.name "1"), .sum [.name "half", .name "half"]]
    let s : Score := .ofMeasures [⟨.number 7, none, ⟨[], [⟨[], d⟩]⟩⟩]
    ofText sumText = .ok s ∧ ofText s.toJson.text = .ok s.reread ∧
      s.reread.statistics.durations = s.statistics.durations ∧
      ∀ settings, s.reread.validate settings = s.validate settings := by
  intro d s
  have hread : ofText sumText = .ok s := by
    rw [ofText, decode, parse_sumText]
    rfl
  obtain ⟨hback, hrereads, -, hnames, hreports⟩ := written_form_keeps hread
  have hcomma : ∀ e ∈ s.events, ∀ p ∈ e.duration.pieces, ¬ p.HasComma := by decide
  refine ⟨hread, hback, hnames hcomma, fun settings => (hreports settings).2.2 ?_⟩
  intro m hm e he
  have he := mem_events hm he
  rw [(hrereads e he).same (hcomma e he)]

/-- The object is worth nothing before, and two beats after. -/
theorem not_restored_of_object :
    let score (d : Duration) : Score := .ofMeasures [⟨.unknown, none, ⟨[⟨[], d⟩], []⟩⟩]
    let d : Duration := .piece (.name "\x7b\"a\":\"x, half, y\"\x7d")
    let d' : Duration := .sum [.name "\x7b\"a\":\"x", .name "half", .name "y\"\x7d"]
    ofText objectText = .ok (score d) ∧ ofText (score d).toJson.text = .ok (score d') ∧
      d.value.beats = Beats.zero ∧ d'.value.beats = ⟨2, 1⟩ ∧
      (score d').validate .default ≠ (score d).validate .default := by
  intro score d d'
  have hread : ofText objectText = .ok (score d) := by
    rw [ofText, decode, parse_objectText]
    rfl
  have hreread : (score d).reread = score d' := rfl
  have hback := ofText_text (wasRead_of_ofText hread)
  rw [hreread] at hback
  exact ⟨hread, hback, by decide +kernel, by decide +kernel, by decide +kernel⟩

end Score

end MeterCheck
