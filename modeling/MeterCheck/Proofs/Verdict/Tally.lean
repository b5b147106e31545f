import MeterCheck.Proofs.Report.Revise
import MeterCheck.Proofs.Verdict.Range
import Mathlib.Algebra.Order.BigOperators.Group.List

/-!
# Exact tallies

* `voiceLength`: the length of a voice as a rational number;
* `unrecognized_append`, `mem_unrecognized`: where the events stand that are not recognized;
* `sumsFit_of_lt`: sixteen times the length bounds every number that is computed on the way to it;
* `Tally.exact_of_lt`: so the tally of such a voice is exact, whatever the order of its events and
  wherever it is cut in two.
-/

namespace MeterCheck

open Beats (ofRat)

/-- The sum of the lengths of the events. -/
def voiceLength (events : List Event) : ℚ := (events.map fun e => e.duration.length).sum

variable {events xs ys : List Event}

theorem voiceLength_append (xs ys : List Event) :
    voiceLength (xs ++ ys) = voiceLength xs + voiceLength ys := by
  rw [voiceLength, List.map_append, List.sum_append]
  rfl

theorem voiceLength_cons (e : Event) (events : List Event) :
    voiceLength (e :: events) = e.duration.length + voiceLength events := by
  rw [voiceLength, List.map_cons, List.sum_cons]
  rfl

theorem voiceLength_perm (h : xs.Perm ys) : voiceLength xs = voiceLength ys :=
  (h.map _).sum_eq

theorem onGrid_of_mem_lengths {x : ℚ} (h : x ∈ events.map fun e => e.duration.length) :
    OnGrid x := by
  obtain ⟨e, -, rfl⟩ := List.mem_map.1 h
  exact e.duration.length_onGrid

theorem voiceLength_onGrid (events : List Event) : OnGrid (voiceLength events) :=
  .sum fun _ => onGrid_of_mem_lengths

theorem length_le_voiceLength {e : Event} (h : e ∈ events) :
    e.duration.length ≤ voiceLength events :=
  List.single_le_sum (fun _ hx => (onGrid_of_mem_lengths hx).nonneg) _ (List.mem_map_of_mem h)

/-! ## The events that are not recognized -/

theorem mem_unrecognized {i : Nat} : i ∈ (tally events).unrecognized ↔
    ∃ e, events[i]? = some e ∧ e.duration.value.recognized = false := by
  have hmark : (false, i) ∈ (marks events).zipIdx ↔
      ∃ e, events[i]? = some e ∧ e.duration.value.recognized = false := by
    rw [List.mem_zipIdx_iff_getElem?, marks, List.getElem?_map, Option.map_eq_some_iff]
  rw [unrecognized_tally, List.mem_filterMap, ← hmark]
  constructor
  · rintro ⟨⟨b, j⟩, hmem, hj⟩
    cases b <;> cases hj
    exact hmem
  · intro hmem
    exact ⟨_, hmem, rfl⟩

theorem pairwise_unrecognized (events : List Event) :
    (tally events).unrecognized.Pairwise (· < ·) := by
  have hindices : (marks events).zipIdx.Pairwise fun p q => p.2 < q.2 := by
    rw [← List.pairwise_map (f := Prod.snd), List.zipIdx_map_snd]
    exact List.pairwise_lt_range'
  rw [unrecognized_tally]
  apply hindices.filterMap
  rintro ⟨b, i⟩ ⟨c, j⟩ hlt k hk l hl
  cases b <;> cases hk
  cases c <;> cases hl
  exact hlt

/-- The indices of the second part begin where the first part ends. -/
theorem unrecognized_append (xs ys : List Event) : (tally (xs ++ ys)).unrecognized =
    (tally xs).unrecognized ++ (tally ys).unrecognized.map (· + xs.length) := by
  have hmarks : marks (xs ++ ys) = marks xs ++ marks ys := List.map_append
  have hlength : (marks xs).length = xs.length := List.length_map _
  simp only [unrecognized_tally, hmarks, List.zipIdx_append, List.filterMap_append]
  congr 1
  rw [hlength, Nat.zero_add, List.zipIdx_eq_map_add, List.filterMap_map, List.map_filterMap]
  apply List.filterMap_congr
  rintro ⟨b, i⟩ -
  cases b
  · exact congrArg some (Nat.add_comm _ _)
  · rfl

theorem unrecognized_singleton (e : Event) : (tally [e]).unrecognized =
    if e.duration.value.recognized then [] else [0] := by
  simp only [tally, Tally.add, List.zipIdx_singleton, List.foldl_cons, List.foldl_nil]
  rfl

/-- One more event moves the indices behind it by one. -/
theorem unrecognized_insert (xs ys : List Event) (e : Event) :
    (tally (xs ++ e :: ys)).unrecognized = (tally xs).unrecognized ++
      (if e.duration.value.recognized then [] else [xs.length]) ++
      (tally ys).unrecognized.map (· + (xs.length + 1)) := by
  have hparts : xs ++ e :: ys = xs ++ ([e] ++ ys) := rfl
  rw [hparts, unrecognized_append, unrecognized_append, unrecognized_singleton, List.map_append,
    List.map_map, ← List.append_assoc]
  congr 1
  · split <;> simp
  · apply List.map_congr_left
    intro i _
    simp only [Function.comp_apply, List.length_singleton]
    omega

/-! ## What a bound on the length ensures -/

theorem OnGrid.mul_lcm_le {x y z : ℚ} (hx : OnGrid x) (hy : OnGrid y) (hz : 0 ≤ z) :
    z * x.den.lcm y.den ≤ 16 * z := by
  have hle : (x.den.lcm y.den : ℚ) ≤ 16 := by
    exact_mod_cast Nat.le_of_dvd (by decide) (Nat.lcm_dvd hx.den_dvd hy.den_dvd)
  nlinarith

/-- No partial sum exceeds the total, and no common denominator exceeds sixteen. -/
theorem sumsFit_of_lt {x : ℚ} {xs : List ℚ} (hx : OnGrid x) (hxs : ∀ y ∈ xs, OnGrid y)
    (h : 16 * (x + xs.sum) < 2 ^ 63) : SumsFit x xs := by
  induction xs generalizing x with
  | nil => trivial
  | cons y ys ih =>
    obtain ⟨hy, hys⟩ := List.forall_mem_cons.1 hxs
    have hxy := hx.add hy
    have hrest := (OnGrid.sum hys).nonneg
    rw [List.sum_cons, ← add_assoc] at h
    refine ⟨lt_of_le_of_lt (hx.mul_lcm_le hy hxy.nonneg) ?_, ih hxy hys h⟩
    linarith

namespace Duration

mutual

theorem fits_of_lt : ∀ {d : Duration}, 16 * d.length < 2 ^ 63 → d.Fits
  | .piece _, _ => by
    rw [Fits]
    trivial
  | .sum pieces, h => by
    rw [length] at h
    rw [Fits]
    refine sumsFit_of_lt .zero ?_ (by rwa [zero_add])
    intro x hx
    obtain ⟨p, -, rfl⟩ := List.mem_map.1 hx
    exact p.length_onGrid
  | .sequence _, h => by
    rw [length] at h
    rw [Fits]
    exact lastFits_of_lt h

theorem lastFits_of_lt : ∀ {items : List Duration}, 16 * lastLength items < 2 ^ 63 →
    LastFits items
  | [], _ => by
    rw [LastFits]
    trivial
  | [_], h => by
    rw [lastLength] at h
    rw [LastFits]
    exact fits_of_lt h
  | _ :: _ :: _, h => by
    rw [lastLength] at h
    rw [LastFits]
    exact lastFits_of_lt h

end

end Duration

/-- A voice whose multipliers are words and whose length fits a word in sixteenths of a beat. -/
structure VoiceFits (events : List Event) : Prop where
  words : ∀ e ∈ events, e.duration.WordSized
  lt : 16 * voiceLength events < 2 ^ 63

namespace VoiceFits

theorem perm (h : VoiceFits xs) (hp : ys.Perm xs) : VoiceFits ys :=
  ⟨fun e he => h.words e (hp.mem_iff.1 he), voiceLength_perm hp ▸ h.lt⟩

theorem left (h : VoiceFits (xs ++ ys)) : VoiceFits xs := by
  refine ⟨fun e he => h.words e (List.mem_append_left ys he), ?_⟩
  have hlt := h.lt
  have hnonneg := (voiceLength_onGrid ys).nonneg
  rw [voiceLength_append] at hlt
  linarith

theorem right (h : VoiceFits (xs ++ ys)) : VoiceFits ys :=
  (h.perm List.perm_append_comm).left

theorem value_eq (h : VoiceFits events) {e : Event} (he : e ∈ events) :
    Checked.value e.duration = some ⟨ofRat e.duration.length, e.duration.value.recognized⟩ := by
  refine (Checked.value_eq_some_iff (h.words e he)).2 ⟨Duration.fits_of_lt ?_, rfl⟩
  have hlt := h.lt
  have hle := length_le_voiceLength he
  linarith

/-- Nothing stops the tally, and it gives the length of the voice. -/
theorem checked (h : VoiceFits events) :
    Checked.tally events = some (ofRat (voiceLength events)) := by
  refine (Checked.tally_eq_some_iff h.words).2 ⟨fun e he => ?_, ?_, rfl⟩
  · exact ((Checked.value_eq_some_iff (h.words e he)).1 (h.value_eq he)).1
  · refine sumsFit_of_lt .zero (fun _ => onGrid_of_mem_lengths) ?_
    rw [zero_add]
    exact h.lt

theorem total_eq (h : VoiceFits events) : (tally events).total = ofRat (voiceLength events) :=
  Checked.tally_eq_of_checked h.checked

theorem checked_add (h : VoiceFits (xs ++ ys)) :
    Checked.add (tally xs).total (tally ys).total = some (tally (xs ++ ys)).total := by
  have hx := voiceLength_onGrid xs
  have hy := voiceLength_onGrid ys
  have hlt := h.lt
  rw [voiceLength_append] at hlt
  rw [h.left.total_eq, h.right.total_eq, h.total_eq, voiceLength_append,
    Checked.add_ofRat_iff hx.nonneg hy.nonneg (hx.den_mul_den_lt hy)]
  exact ⟨lt_of_le_of_lt (hx.mul_lcm_le hy (hx.add hy).nonneg) hlt, rfl⟩

/-- An event without a length may be inserted anywhere. -/
theorem insert (h : VoiceFits (xs ++ ys)) {e : Event} (hw : e.duration.WordSized)
    (hzero : e.duration.length = 0) : VoiceFits (xs ++ e :: ys) ∧
      voiceLength (xs ++ e :: ys) = voiceLength (xs ++ ys) := by
  have hlength : voiceLength (xs ++ e :: ys) = voiceLength (xs ++ ys) := by
    rw [voiceLength_append, voiceLength_append, voiceLength_cons, hzero, zero_add]
  refine ⟨⟨?_, hlength ▸ h.lt⟩, hlength⟩
  intro a ha
  rw [List.mem_append, List.mem_cons] at ha
  rcases ha with ha | rfl | ha
  · exact h.words a (List.mem_append_left ys ha)
  · exact hw
  · exact h.words a (List.mem_append_right xs ha)

end VoiceFits

/-- The tally that these events have in rational arithmetic, in lowest terms. -/
structure Tally.Exact (t : Tally) (events : List Event) : Prop where
  total : t.total = ofRat (voiceLength events)
  nonneg : 0 ≤ t.total.numer
  denom_pos : 0 < t.total.denom
  coprime : t.total.numer.gcd t.total.denom = 1
  denom_dvd : t.total.denom ∣ 16
  increasing : t.unrecognized.Pairwise (· < ·)
  mem_unrecognized : ∀ i, i ∈ t.unrecognized ↔
    ∃ e, events[i]? = some e ∧ e.duration.value.recognized = false

theorem VoiceFits.exact_tally (h : VoiceFits events) : (tally events).Exact events where
  total := h.total_eq
  nonneg := by
    rw [h.total_eq]
    exact Rat.num_nonneg.2 (voiceLength_onGrid events).nonneg
  denom_pos := by
    rw [h.total_eq]
    exact Int.natCast_pos.2 (Rat.den_pos _)
  coprime := by
    rw [h.total_eq]
    exact Rat.reduced _
  denom_dvd := by
    rw [h.total_eq]
    exact Int.natCast_dvd_natCast.2 (voiceLength_onGrid events).den_dvd
  increasing := pairwise_unrecognized events
  mem_unrecognized _ := MeterCheck.mem_unrecognized

/--
**A tally is exact as long as sixteen times its length fits a word.** No length of an event and no
sum overflows, the total is the length of the voice in lowest terms, a number of sixteenths, and
the indices are those of the events that are not recognized, from left to right. Another order of
the events has the same total. Where the voice is cut in two, the totals are added and the indices
of the second part moved up; an event that is worth nothing moves the indices behind it by one.
-/
theorem Tally.exact_of_lt (hwords : ∀ e ∈ events, e.duration.WordSized)
    (hlt : 16 * voiceLength events < 2 ^ 63) :
    (∀ e ∈ events, Checked.value e.duration = some e.duration.value ∧
        e.duration.value.beats = ofRat e.duration.length) ∧
      Checked.tally events = some (tally events).total ∧
      (tally events).Exact events ∧
      (∀ others, others.Perm events → Checked.tally others = some (tally others).total ∧
        (tally others).total = (tally events).total) ∧
      (∀ xs ys, events = xs ++ ys →
        Checked.add (tally xs).total (tally ys).total = some (tally events).total ∧
        (tally xs).total + (tally ys).total = (tally events).total ∧
        (tally events).unrecognized =
          (tally xs).unrecognized ++ (tally ys).unrecognized.map (· + xs.length)) ∧
      ∀ xs ys e, events = xs ++ ys → e.duration.WordSized → e.duration.length = 0 →
        (tally (xs ++ e :: ys)).Exact (xs ++ e :: ys) ∧
        (tally (xs ++ e :: ys)).total = (tally events).total ∧
        (tally (xs ++ e :: ys)).unrecognized = (tally xs).unrecognized ++
          (if e.duration.value.recognized then [] else [xs.length]) ++
          (tally ys).unrecognized.map (· + (xs.length + 1)) := by
  have h : VoiceFits events := ⟨hwords, hlt⟩
  have htotal : Checked.tally events = some (tally events).total := h.total_eq ▸ h.checked
  refine ⟨?values, htotal, h.exact_tally, ?perm, ?append, ?insert⟩
  case values =>
    intro e he
    have hvalue := h.value_eq he
    have hsame := Checked.value_eq_of_checked hvalue
    exact ⟨hsame ▸ hvalue, congrArg Value.beats hsame⟩
  case perm =>
    intro others hperm
    have hothers := h.perm hperm
    refine ⟨hothers.total_eq ▸ hothers.checked, ?_⟩
    rw [hothers.total_eq, h.total_eq, voiceLength_perm hperm]
  case append =>
    rintro xs ys rfl
    exact ⟨h.checked_add, Checked.add_eq_of_checked h.checked_add, unrecognized_append xs ys⟩
  case insert =>
    rintro xs ys e rfl hw hzero
    obtain ⟨hinsert, hlength⟩ := h.insert hw hzero
    refine ⟨hinsert.exact_tally, ?_, unrecognized_insert xs ys e⟩
    rw [hinsert.total_eq, h.total_eq, hlength]

/-- A sum, a name that is not known, and a rest. -/
def mixedVoice : List Event :=
  [⟨["C4"], .sum [.name "dotted eighth", .product 3 "thirty-second"]⟩,
   ⟨["D4"], .piece (.name "semibreve")⟩, ⟨["Rest"], .piece (.name "rest")⟩]

theorem voiceLength_mixedVoice : voiceLength mixedVoice = 9 / 8 := by
  have heighth : lengthOf "dotted eighth" = 3 / 4 := by decide +kernel
  have hthirty : lengthOf "thirty-second" = 1 / 8 := by decide +kernel
  have hunknown : lengthOf "semibreve" = 0 := by decide +kernel
  have hrest : lengthOf "rest" = 0 := by decide +kernel
  norm_num [voiceLength, mixedVoice, Duration.length, Piece.length, heighth, hthirty, hunknown,
    hrest]

/-- Nine eighths of a beat, in any order and wherever the voice is cut; one event is unknown. -/
theorem Tally.exact_of_lt_of_mixed : (∀ e ∈ mixedVoice, e.duration.WordSized) ∧
    16 * voiceLength mixedVoice < 2 ^ 63 ∧ (tally mixedVoice).Exact mixedVoice ∧
    Checked.tally mixedVoice = some ⟨9, 8⟩ ∧ tally mixedVoice = ⟨⟨9, 8⟩, [1]⟩ ∧
    (tally mixedVoice.reverse).total = ⟨9, 8⟩ ∧
    (tally (mixedVoice.take 1)).total + (tally (mixedVoice.drop 1)).total = ⟨9, 8⟩ := by
  have hwords : ∀ e ∈ mixedVoice, e.duration.WordSized := by
    simp [mixedVoice, Duration.WordSized, Piece.WordSized]
  have hlt : 16 * voiceLength mixedVoice < 2 ^ 63 := by
    rw [voiceLength_mixedVoice]
    norm_num
  have htally : tally mixedVoice = ⟨⟨9, 8⟩, [1]⟩ := by decide +kernel
  obtain ⟨-, hchecked, hexact, hperm, happend, -⟩ := exact_of_lt hwords hlt
  rw [htally] at hchecked
  refine ⟨hwords, hlt, hexact, hchecked, htally, ?_, ?_⟩
  · rw [(hperm _ (List.reverse_perm _)).2, htally]
  · rw [(happend _ _ (List.take_append_drop 1 _).symm).2.1, htally]

end MeterCheck
