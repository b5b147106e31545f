import MeterCheck.Proofs.Json.Sendable
import MeterCheck.Proofs.Score.Origin
import MeterCheck.Score.Statistics

/-!
# Statistics that can be sent

* `Table.total_counts`: a table of counts counts every name once;
* `Score.eventsSize_le`: a score has no more events and notes than its voices take up;
* `Score.sendable_statistics`: the statistics can be sent, and come back as they are.
-/

namespace MeterCheck

namespace Table

variable {names : List String} {e : String × Nat}

/-- The entries of a table of counts, added up. -/
def total (t : Table Nat) : Nat := (t.map Prod.snd).sum

theorem total_upsert (name : String) (t : Table Nat) :
    total (t.upsert name fun n => n.getD 0 + 1) = total t + 1 := by
  induction t with
  | nil => rfl
  | cons e rest ih =>
    obtain ⟨n, k⟩ := e
    unfold total at ih ⊢
    rw [upsert]
    split
    · simp only [List.map_cons, List.sum_cons, Option.getD_none]
      omega
    · split
      · simp only [List.map_cons, List.sum_cons, Option.getD_some]
        omega
      · simp only [List.map_cons, List.sum_cons, ih]
        omega

theorem length_upsert_le {α : Type} (name : String) (f : Option α → α) (t : Table α) :
    (t.upsert name f).length ≤ t.length + 1 := by
  induction t with
  | nil => exact Nat.le_refl 1
  | cons e rest ih =>
    rw [upsert]
    split
    · exact Nat.le_refl _
    · split
      · exact Nat.le_succ _
      · exact Nat.succ_le_succ ih

/-- Every name is counted once. -/
theorem total_counts (names : List String) : total (counts names) = names.length := by
  suffices hfold : ∀ t : Table Nat,
      total (names.foldl (fun t name => t.upsert name fun n => n.getD 0 + 1) t) =
        total t + names.length from
    (hfold []).trans (Nat.zero_add _)
  induction names with
  | nil => exact fun t => rfl
  | cons name rest ih =>
    intro t
    rw [List.foldl_cons, ih, total_upsert, List.length_cons]
    omega

theorem length_counts_le (names : List String) : (counts names).length ≤ names.length := by
  suffices hfold : ∀ t : Table Nat,
      (names.foldl (fun t name => t.upsert name fun n => n.getD 0 + 1) t).length ≤
        t.length + names.length from
    (hfold []).trans (Nat.zero_add _).le
  induction names with
  | nil => exact fun t => Nat.le_refl _
  | cons name rest ih =>
    intro t
    rw [List.foldl_cons, List.length_cons]
    have hupsert := length_upsert_le name (fun n : Option Nat => n.getD 0 + 1) t
    have hrest := ih (t.upsert name fun n => n.getD 0 + 1)
    omega

theorem le_of_mem_counts (h : e ∈ counts names) : e.2 ≤ names.length := by
  rw [← total_counts names]
  exact List.single_le_sum (by simp) _ (List.mem_map_of_mem h)

theorem Sorted.nodup {α : Type} {t : Table α} (h : t.Sorted) : (t.map Prod.fst).Nodup := by
  refine List.pairwise_map.2 (h.imp fun hlt heq => ?_)
  exact String.lt_irrefl _ (heq ▸ hlt)

end Table

/-! ## Sizes -/

theorem eventsSize_append (es es' : List Event) :
    eventsSize (es ++ es') = eventsSize es + eventsSize es' := by
  simp [eventsSize]

theorem length_le_eventsSize (events : List Event) : events.length ≤ eventsSize events := by
  induction events with
  | nil => exact Nat.le_refl 0
  | cons e events ih =>
    simp only [eventsSize, List.map_cons, List.sum_cons, List.length_cons] at ih ⊢
    omega

theorem length_pitches_le (events : List Event) :
    (events.flatMap Event.pitches).length ≤ eventsSize events := by
  induction events with
  | nil => exact Nat.le_refl 0
  | cons e events ih =>
    have hpitches : e.pitches.length ≤ e.notes.length := List.length_filter_le _ _
    simp only [eventsSize, List.map_cons, List.sum_cons, List.flatMap_cons, List.length_append]
      at ih ⊢
    omega

namespace Score

variable {s : Score}

theorem length_voice_le (s : Score) (hand : Hand) :
    (s.measures.flatMap fun m => m.voice hand).length + s.measures.length ≤ s.voiceSize hand := by
  unfold voiceSize
  induction s.measures with
  | nil => exact Nat.le_refl 0
  | cons m measures ih =>
    have hvoice : (m.voice hand).length ≤ m.voiceSize hand := length_le_eventsSize _
    simp only [List.flatMap_cons, List.length_append, List.length_cons, List.map_cons,
      List.sum_cons]
    omega

theorem eventsSize_le (s : Score) :
    eventsSize s.events ≤ s.voiceSize .right + s.voiceSize .left := by
  unfold events voiceSize
  induction s.measures with
  | nil => exact Nat.le_refl 0
  | cons m measures ih =>
    have hmeasure : eventsSize m.events = m.voiceSize .right + m.voiceSize .left :=
      eventsSize_append _ _
    simp only [List.flatMap_cons, eventsSize_append, List.map_cons, List.sum_cons]
    omega

theorem voiceSize_lt_of_read {source : Source} {members : Members}
    (h : (record source).fields.read members = .ok s) (hv : ∀ m ∈ members, m.2.weight < 2 ^ 63)
    (hand : Hand) : s.voiceSize hand < 2 ^ 63 := by
  have hsmall : ∀ m ∈ members, m.2.weight ≤ 2 ^ 63 - 1 := fun m hm => Nat.le_sub_one_of_lt (hv m hm)
  have hsize := fields_sized source hand members s _ h hsmall
  omega

/-- **All statistics can be sent.** -/
theorem sendable_statistics (h : ∀ hand, s.voiceSize hand < 2 ^ 63) :
    s.statistics.toJson.Sendable 2 := by
  have hsize := s.eventsSize_le
  have hright := s.length_voice_le .right
  have hleft := s.length_voice_le .left
  have hboundRight := h .right
  have hboundLeft := h .left
  have hevents := length_le_eventsSize s.events
  have hpitches := length_pitches_le s.events
  have hnames := Table.length_counts_le (s.events.flatMap Event.pitches)
  have hcounts : ∀ e ∈ Table.counts (s.events.map fun e => e.duration.bucket), e.2 < 2 ^ 64 := by
    intro e he
    have hle := Table.le_of_mem_counts he
    rw [List.length_map] at hle
    omega
  have hdurations : (s.statistics.durations.map fun e => (e.1, Json.ofNat e.2)).map Prod.fst =
      s.statistics.durations.map Prod.fst := by
    rw [List.map_map]
    rfl
  refine .object (by simp) ?_
  simp only [List.forall_mem_cons]
  refine ⟨.string _, .string _, .ofNat ?_, .ofNat ?_, .ofNat ?_, .ofNat ?_,
    .array_map fun _ _ => .string _, .ofNat ?_, .object ?_ ?_, by simp⟩
  · change s.measures.length < _
    omega
  · change (s.measures.flatMap fun m => m.voice .right).length +
      (s.measures.flatMap fun m => m.voice .left).length < _
    omega
  · change (s.measures.flatMap fun m => m.voice .right).length < _
    omega
  · change (s.measures.flatMap fun m => m.voice .left).length < _
    omega
  · change ((Table.counts _).map Prod.fst).length < _
    rw [List.length_map]
    omega
  · exact hdurations ▸ (Table.sorted_counts _).nodup
  · intro m hm
    obtain ⟨e, he, rfl⟩ := List.mem_map.1 hm
    exact .ofNat (hcounts e he)

theorem reread_statistics (s : Score) : s.statistics.toJson.reread = s.statistics.toJson := by
  simp [Statistics.toJson, Json.reread, Json.rereadItems_eq_map, Json.rereadMembers_eq_map,
    Json.ofNat, Function.comp_def]

end Score

end MeterCheck
