import MeterCheck.Proofs.Table
import MeterCheck.Score.Statistics
import Mathlib.Data.Multiset.Bind
import Mathlib.Logic.Relation

/-!
# Statistics of parts and in other orders

* `Table.KeywiseSum`, `Table.SortedUnion`, `Statistics.Joins`: what two parts come to together;
* `shown`: what the statistics see of the events of a hand, in no order;
* `Rearranges`: one change of order, or of the place of an event;
* `Score.statistics_rearrange`: parts add up, and no such change makes a difference.
-/

namespace MeterCheck

/-! ## Two parts -/

namespace Table

/-- Under each name stands the sum of what stands there in the other two tables. -/
structure KeywiseSum (t a b : Table Nat) : Prop where
  sorted : t.Sorted
  lookup : ∀ name, t.lookup name = Option.merge (· + ·) (a.lookup name) (b.lookup name)

/-- The names of both lists, each of them once and in order. -/
structure SortedUnion (ns as bs : List String) : Prop where
  sorted : ns.Pairwise (· < ·)
  mem : ∀ name, name ∈ ns ↔ name ∈ as ∨ name ∈ bs

theorem keywiseSum_counts (as bs : List String) :
    KeywiseSum (counts (as ++ bs)) (counts as) (counts bs) := by
  refine ⟨sorted_counts _, fun name => ?_⟩
  simp only [lookup_counts, List.mem_append, List.count_append]
  by_cases ha : name ∈ as <;> by_cases hb : name ∈ bs <;>
    simp [ha, hb, List.count_eq_zero_of_not_mem]

theorem sortedUnion_names (as bs : List String) :
    SortedUnion (names (as ++ bs)) (names as) (names bs) := by
  refine ⟨pairwise_names _, fun name => ?_⟩
  simp only [mem_names, List.mem_append]

end Table

/-- The statistics of two scores of one key and tempo, taken together. -/
structure Statistics.Joins (t a b : Statistics) : Prop where
  key : t.key = a.key ∧ t.key = b.key
  tempo : t.tempo = a.tempo ∧ t.tempo = b.tempo
  measureCount : t.measureCount = a.measureCount + b.measureCount
  totalEvents : t.totalEvents = a.totalEvents + b.totalEvents
  events : ∀ hand, t.events.get hand = a.events.get hand + b.events.get hand
  pitches : Table.SortedUnion t.pitches a.pitches b.pitches
  pitchCount : t.pitchCount = t.pitches.length
  durations : Table.KeywiseSum t.durations a.durations b.durations

/-! ## What the statistics see -/

/-- The bucket of an event and its pitches in no order. -/
def Event.shown (e : Event) : String × Multiset String := (e.duration.bucket, ↑e.pitches)

theorem Event.shown_of_perm (e : Event) {notes : List String} (h : notes.Perm e.notes) :
    Event.shown { e with notes } = e.shown :=
  Prod.ext rfl (Multiset.coe_eq_coe.2 (h.filter _))

namespace Measure

/-- The events of a hand in no order. -/
def shown (m : Measure) (hand : Hand) : Multiset (String × Multiset String) :=
  ↑((m.voice hand).map Event.shown)

theorem shown_withVoice (m : Measure) (hand : Hand) (voice : List Event) (hand' : Hand) :
    (m.withVoice hand voice).shown hand' =
      if hand' = hand then ↑(voice.map Event.shown) else m.shown hand' := by
  cases hand <;> cases hand' <;> rfl

/-- A voice in which the same is seen. -/
theorem shown_withVoice_of_perm {m : Measure} {hand : Hand} {voice : List Event}
    (h : (voice.map Event.shown).Perm ((m.voice hand).map Event.shown)) (hand' : Hand) :
    (m.withVoice hand voice).shown hand' = m.shown hand' := by
  rw [shown_withVoice]
  split
  · rename_i heq
    rw [heq]
    exact Multiset.coe_eq_coe.2 h
  · rfl

end Measure

/-- The events of a hand in all measures. -/
def shown (ms : List Measure) (hand : Hand) : Multiset (String × Multiset String) :=
  (ms.map fun m => m.shown hand).sum

variable {ms ms' : List Measure} {i j : Nat} {m m' : Measure} {hand : Hand}

theorem shown_set (here : ms[i]? = some m) (m' : Measure) (hand : Hand) :
    shown (ms.set i m') hand + m.shown hand = shown ms hand + m'.shown hand := by
  induction ms generalizing i with
  | nil => cases here
  | cons m₀ ms ih =>
    cases i with
    | zero =>
      cases here
      simp only [shown, List.set_cons_zero, List.map_cons, List.sum_cons]
      rw [add_right_comm, add_comm (m'.shown hand), add_right_comm]
    | succ i =>
      have hrest := ih here
      simp only [shown, List.set_cons_succ, List.map_cons, List.sum_cons] at hrest ⊢
      rw [add_assoc, hrest, add_assoc]

/-- A measure in which the same is seen. -/
theorem shown_set_of_eq (here : ms[i]? = some m) (h : m'.shown hand = m.shown hand) :
    shown (ms.set i m') hand = shown ms hand := by
  have hset := shown_set here m' hand
  rw [h] at hset
  exact add_right_cancel hset

namespace Score

variable (s : Score)

/-- The score with other measures. -/
def withMeasures (ms : List Measure) : Score := { s with measures := ms }

@[simp]
theorem measures_withMeasures (ms : List Measure) : (s.withMeasures ms).measures = ms := rfl

theorem length_voices_eq (ms : List Measure) (hand : Hand) :
    (ms.flatMap fun m => m.voice hand).length = (shown ms hand).card := by
  induction ms with
  | nil => rfl
  | cons m ms ih =>
    rw [List.flatMap_cons, List.length_append, ih, shown, shown, List.map_cons, List.sum_cons,
      Multiset.card_add, Measure.shown, Multiset.coe_card, List.length_map]

theorem map_shown_events :
    (↑(s.events.map Event.shown) : Multiset (String × Multiset String)) =
      shown s.measures .right + shown s.measures .left := by
  unfold events
  induction s.measures with
  | nil => rfl
  | cons m ms ih =>
    have hm : (↑(m.events.map Event.shown) : Multiset (String × Multiset String)) =
        m.shown .right + m.shown .left := by
      rw [Measure.events, List.map_append, ← Multiset.coe_add]
      rfl
    rw [List.flatMap_cons, List.map_append, ← Multiset.coe_add, ih, hm]
    simp only [shown, List.map_cons, List.sum_cons]
    exact add_add_add_comm _ _ _ _

/-- The statistics depend on the number of measures and on what is seen of the events. -/
theorem statistics_eq_of_shown (hlength : ms'.length = ms.length)
    (hshown : ∀ hand, shown ms' hand = shown ms hand) :
    (s.withMeasures ms').statistics = (s.withMeasures ms).statistics := by
  have hevents : ((s.withMeasures ms').events.map Event.shown).Perm
      ((s.withMeasures ms).events.map Event.shown) := by
    rw [← Multiset.coe_eq_coe, map_shown_events, map_shown_events, measures_withMeasures,
      measures_withMeasures, hshown, hshown]
  have hbuckets : ((s.withMeasures ms').events.map fun e => e.duration.bucket).Perm
      ((s.withMeasures ms).events.map fun e => e.duration.bucket) := by
    have hfst := hevents.map Prod.fst
    rwa [List.map_map, List.map_map] at hfst
  have hpitches : ((s.withMeasures ms').events.flatMap Event.pitches).Perm
      ((s.withMeasures ms).events.flatMap Event.pitches) := by
    have hbind (es : List Event) : (↑(es.flatMap Event.pitches) : Multiset String) =
        (↑(es.map Event.shown) : Multiset (String × Multiset String)).bind Prod.snd := by
      rw [← Multiset.map_coe, Multiset.bind_map]
      exact (Multiset.coe_bind es Event.pitches).symm
    rw [← Multiset.coe_eq_coe, hbind, hbind, Multiset.coe_eq_coe.2 hevents]
  have hcount (hand : Hand) : (ms'.flatMap fun m => m.voice hand).length =
      (ms.flatMap fun m => m.voice hand).length := by
    rw [length_voices_eq, length_voices_eq, hshown]
  simp only [statistics, measures_withMeasures, hcount, hlength, Table.names_perm hpitches,
    Table.counts_perm hbuckets]
  rfl

end Score

/-! ## Changes of order -/

/--
The measures in another order, the events of a voice in another order, the notes of an event in
another order, or an event of one measure in another measure, in a voice of the same hand.
-/
inductive Rearranges : List Measure → List Measure → Prop where
  | measures {ms ms' : List Measure} (perm : ms'.Perm ms) : Rearranges ms ms'
  | events {ms : List Measure} {i : Nat} {m : Measure} {hand : Hand} {voice : List Event}
      (here : ms[i]? = some m) (perm : voice.Perm (m.voice hand)) :
      Rearranges ms (ms.set i (m.withVoice hand voice))
  | notes {ms : List Measure} {i : Nat} {m : Measure} {hand : Hand} {before after : List Event}
      {e : Event} {notes : List String} (here : ms[i]? = some m)
      (voice : m.voice hand = before ++ e :: after) (perm : notes.Perm e.notes) :
      Rearranges ms (ms.set i (m.withVoice hand (before ++ { e with notes } :: after)))
  | move {ms : List Measure} {i j : Nat} {m m' : Measure} {hand : Hand}
      {before after before' after' : List Event} {e : Event} (ne : i ≠ j) (here : ms[i]? = some m)
      (there : ms[j]? = some m') (voice : m.voice hand = before ++ e :: after)
      (voice' : m'.voice hand = before' ++ after') :
      Rearranges ms ((ms.set i (m.withVoice hand (before ++ after))).set j
        (m'.withVoice hand (before' ++ e :: after')))

namespace Rearranges

theorem length_eq (h : Rearranges ms ms') : ms'.length = ms.length := by
  cases h with
  | measures perm => exact perm.length_eq
  | events | notes => exact List.length_set
  | move => rw [List.length_set, List.length_set]

theorem shown_move {before after before' after' : List Event} {e : Event} (ne : i ≠ j)
    (here : ms[i]? = some m) (there : ms[j]? = some m')
    (voice : m.voice hand = before ++ e :: after) (voice' : m'.voice hand = before' ++ after')
    (hand' : Hand) :
    shown ((ms.set i (m.withVoice hand (before ++ after))).set j
      (m'.withVoice hand (before' ++ e :: after'))) hand' = shown ms hand' := by
  have hthere : (ms.set i (m.withVoice hand (before ++ after)))[j]? = some m' := by
    rw [List.getElem?_set_ne ne, there]
  have htake := shown_set here (m.withVoice hand (before ++ after)) hand'
  have hput := shown_set hthere (m'.withVoice hand (before' ++ e :: after')) hand'
  by_cases hhand : hand' = hand
  · -- what is taken from one measure is put into the other
    have hm : m.shown hand' = {e.shown} + (m.withVoice hand (before ++ after)).shown hand' := by
      rw [Measure.shown_withVoice, if_pos hhand, Measure.shown, hhand, voice]
      exact Multiset.coe_eq_coe.2 ((List.perm_middle).map _)
    have hm' : (m'.withVoice hand (before' ++ e :: after')).shown hand' =
        {e.shown} + m'.shown hand' := by
      rw [Measure.shown_withVoice, if_pos hhand, Measure.shown, hhand, voice']
      exact Multiset.coe_eq_coe.2 ((List.perm_middle).map _)
    rw [hm, ← add_assoc] at htake
    rw [hm', ← add_assoc] at hput
    exact (add_right_cancel hput).trans (add_right_cancel htake)
  · rw [Measure.shown_withVoice, if_neg hhand] at htake hput
    exact (add_right_cancel hput).trans (add_right_cancel htake)

/-- One change leaves what is seen of each hand. -/
theorem shown_eq (h : Rearranges ms ms') (hand : Hand) : shown ms' hand = shown ms hand := by
  cases h with
  | measures perm => exact (perm.map _).sum_eq
  | events here perm =>
    exact shown_set_of_eq here (Measure.shown_withVoice_of_perm (perm.map _) hand)
  | notes here voice perm =>
    apply shown_set_of_eq here
    apply Measure.shown_withVoice_of_perm
    rw [voice, List.map_append, List.map_append, List.map_cons, List.map_cons,
      Event.shown_of_perm _ perm]
  | move ne here there voice voice' => exact shown_move ne here there voice voice' hand

end Rearranges

namespace Score

theorem joins_statistics (s : Score) (xs ys : List Measure) :
    (s.withMeasures (xs ++ ys)).statistics.Joins (s.withMeasures xs).statistics
      (s.withMeasures ys).statistics := by
  have hevents : (s.withMeasures (xs ++ ys)).events =
      (s.withMeasures xs).events ++ (s.withMeasures ys).events :=
    List.flatMap_append
  have hhands (hand : Hand) :
      ((xs ++ ys).flatMap fun m => m.voice hand).length =
        (xs.flatMap fun m => m.voice hand).length + (ys.flatMap fun m => m.voice hand).length := by
    rw [List.flatMap_append, List.length_append]
  refine ⟨⟨rfl, rfl⟩, ⟨rfl, rfl⟩, List.length_append, ?total, fun hand => ?hands, ?pitches, rfl,
    ?durations⟩
  case total =>
    have hboth := congrArg₂ (· + ·) (hhands .right) (hhands .left)
    exact hboth.trans (add_add_add_comm _ _ _ _)
  case hands =>
    cases hand
    · exact hhands .right
    · exact hhands .left
  case pitches =>
    change Table.SortedUnion (Table.names ((events _).flatMap Event.pitches)) _ _
    rw [hevents, List.flatMap_append]
    exact Table.sortedUnion_names _ _
  case durations =>
    change Table.KeywiseSum (Table.counts ((events _).map fun e => e.duration.bucket)) _ _
    rw [hevents, List.map_append]
    exact Table.keywiseSum_counts _ _

/--
**Statistics add up, in any order.** If the measures of a score are those of two scores of its key
and tempo, one after the other, it has the measures and events of both, the sum of their counts
under each name of a duration, and the pitches that either has. No change of the order of measures,
events or notes changes the statistics, nor does an event that is moved to another measure, however
often this is done.
-/
theorem statistics_rearrange (s : Score) :
    (∀ xs ys : List Measure, (s.withMeasures (xs ++ ys)).statistics.Joins
      (s.withMeasures xs).statistics (s.withMeasures ys).statistics) ∧
    ∀ ms ms' : List Measure, Relation.ReflTransGen Rearranges ms ms' →
      (s.withMeasures ms').statistics = (s.withMeasures ms).statistics := by
  refine ⟨s.joins_statistics, fun ms ms' h => ?_⟩
  induction h with
  | refl => rfl
  | tail _ step ih => exact (s.statistics_eq_of_shown step.length_eq step.shown_eq).trans ih

/-- A chord moves to the second measure, where its notes are written the other way round. -/
theorem statistics_rearrange_of_moved :
    let half : Duration := .piece (.name "half")
    let chord : Event := ⟨["C4", "E4"], half⟩
    let silence : Event := ⟨["Rest"], .blank⟩
    let first : Measure := ⟨.number 1, none, ⟨[silence, chord], []⟩⟩
    let second : Measure := ⟨.number 2, none, ⟨[silence], [chord]⟩⟩
    let first' : Measure := ⟨.number 1, none, ⟨[silence], []⟩⟩
    let second' : Measure := ⟨.number 2, none, ⟨[⟨["E4", "C4"], half⟩, silence], [chord]⟩⟩
    Relation.ReflTransGen Rearranges [first, second] [first', second'] ∧
      (ofMeasures [first', second']).statistics = (ofMeasures [first, second]).statistics ∧
      (ofMeasures [first, second]).statistics.durations = [("half", 2), ("unknown", 2)] := by
  intro half chord silence first second first' second'
  let between : Measure := ⟨.number 2, none, ⟨[chord, silence], [chord]⟩⟩
  have hmove : Rearranges [first, second] [first', between] :=
    @Rearranges.move _ 0 1 first second .right [silence] [] [] [silence] chord Nat.zero_ne_one
      rfl rfl rfl rfl
  have hnotes : Rearranges [first', between] [first', second'] :=
    @Rearranges.notes [first', between] 1 between .right [] [silence] chord ["E4", "C4"] rfl rfl
      (.swap "C4" "E4" [])
  have hboth : Relation.ReflTransGen Rearranges [first, second] [first', second'] :=
    .tail (.single hmove) hnotes
  exact ⟨hboth, (statistics_rearrange empty).2 _ _ hboth, by decide +kernel⟩

end Score

end MeterCheck
