import MeterCheck.Proofs.Decode.Written
import MeterCheck.Proofs.Verdict.Range
import MeterCheck.TimeSignature.Wire

/-!
# Where positive signatures come from

A signature that is made from its parts, from a text or from a specification has been checked. One
that is read as a record has not: its parts are words, and may be zero.

* `TimeSignature.Made`: the ways that check the parts;
* `TimeSignature.HasLength`: its measures have a length, and the length is positive;
* `TimeSignature.decode_record_iff`: which signatures are read from a text;
* `TimeSignature.positive_of_made`: what is made has a length. What is read has one if both its
  parts are positive, and divides by zero if its denominator is zero.
-/

namespace MeterCheck

open Beats (ofRat)

namespace TimeSignature

/-- The ways to a signature on which its parts are checked. -/
inductive Made : TimeSignature → Prop where
  | common : Made common
  | parts {n d : Nat} {s : TimeSignature} (checked : check n d = .ok s) : Made s
  | parsed {text : String} {s : TimeSignature} (checked : parse text = .ok s) : Made s
  | resolved {spec : SignatureSpec} {s : TimeSignature} (checked : spec.resolve = .ok s) : Made s

/-- The length of a measure is found without an overflow or a division by zero, and is positive. -/
def HasLength (s : TimeSignature) : Prop := ∃ q : ℚ, 0 < q ∧ Checked.expected s = some (ofRat q)

/-- Both parts are unsigned 32-bit words. -/
structure InWords (s : TimeSignature) : Prop where
  numerator_lt : s.numerator < 2 ^ 32
  denominator_lt : s.denominator < 2 ^ 32

variable {s : TimeSignature}

/-! ## Checked signatures -/

theorem made_iff_proper : s.Made ↔ s.Proper := by
  constructor
  · intro h
    cases h with
    | common => exact proper_common
    | parts checked => exact (check_eq_ok.1 checked).2.2
    | parsed checked => exact proper_of_parse checked
    | @resolved spec _ checked =>
      have hresolves : Resolves (some spec) s := checked
      exact hresolves.proper
  · intro h
    apply Made.parts (n := s.numerator) (d := s.denominator)
    exact check_eq_ok.2 ⟨rfl, rfl, h⟩

/-- Two words make the signature with these parts, or none if one of them is zero. -/
theorem check_words_iff {n d : Nat} (hn : n < 2 ^ 32) (hd : d < 2 ^ 32) :
    check n d = .ok s ↔ s = ⟨n, d⟩ ∧ 0 < n ∧ 0 < d := by
  rw [check_eq_ok, Int.natCast_inj, Int.natCast_inj]
  constructor
  · intro ⟨hnumerator, hdenominator, h⟩
    subst hnumerator hdenominator
    exact ⟨rfl, h.numerator_pos, h.denominator_pos⟩
  · intro ⟨hs, hn0, hd0⟩
    subst hs
    exact ⟨rfl, rfl, hn0, hn, hd0, hd⟩

/-! ## Signatures that are read -/

theorem unsigned32_ensures : Reader.unsigned32.Ensures (· < 2 ^ 32) := by
  intro v n h
  unfold Reader.unsigned32 at h
  split at h
  · split at h
    · cases h
      omega
    · cases h
  · exact (mismatch_ne_ok h).elim

theorem unsigned32_ofNat {n : Nat} (h : n < 2 ^ 32) : Reader.unsigned32 (.ofNat n) = .ok n := by
  rw [Json.ofNat, Reader.unsigned32, if_pos (by omega)]
  rfl

theorem record_ensures (source : Source) : (record.read source).Ensures InWords := by
  apply Record.ensures_read
  intro members s h
  obtain ⟨_, d, hmake, hd, rfl⟩ := Fields.seq_eq_ok.1 h
  obtain ⟨n, hn, rfl⟩ := Fields.map_eq_ok.1 hmake
  exact ⟨Fields.Ensures.required "numerator" unsigned32_ensures members n hn,
    Fields.Ensures.required "denominator" unsigned32_ensures members d hd⟩

/-- Every signature whose parts are words is read from its written form. -/
theorem read_toJson (h : s.InWords) (source : Source) : record.read source s.toJson = .ok s := by
  have hread {name : String} {n : Nat} {members : Members} (hn : n < 2 ^ 32)
      (hnodup : (members.map Prod.fst).Nodup) (hmem : (name, .ofNat n) ∈ members) :
      (Fields.required name Reader.unsigned32).read members = .ok n := by
    have hword := unsigned32_ofNat hn
    exact Fields.read_of_mem hnodup hmem hword
  have hnodup : ([("numerator", Json.ofNat s.numerator),
      ("denominator", Json.ofNat s.denominator)].map Prod.fst).Nodup := by
    simp
  refine Record.read_object (Fields.seq_eq_ok.2 ⟨_, s.denominator, Fields.map_eq_ok.2
    ⟨s.numerator, ?numerator, rfl⟩, ?denominator, rfl⟩) source
  case numerator => exact hread h.numerator_lt hnodup List.mem_cons_self
  case denominator =>
    exact hread h.denominator_lt hnodup (List.mem_cons_of_mem _ List.mem_cons_self)

theorem reread_toJson (s : TimeSignature) : s.toJson.reread = s.toJson := by
  rw [toJson, Json.reread_object]
  rfl

theorem within_toJson (h : s.InWords) : s.toJson.Within 2 := by
  have hword {n k : Nat} (hn : n < 2 ^ 32) : (Json.ofNat n).Within k :=
    .int (by omega) (by omega)
  apply Json.Within.object
  intro m hm
  simp only [List.mem_cons, List.not_mem_nil, or_false] at hm
  obtain rfl | rfl := hm
  · exact hword h.numerator_lt
  · exact hword h.denominator_lt

/-- The checks are not made again: all words are read, zero among them. -/
theorem decode_record_iff :
    (∃ text, decode (record.read .text) text = .ok s) ↔ s.InWords := by
  constructor
  · intro ⟨text, h⟩
    exact decode_ok (record_ensures .text) h
  · intro h
    refine ⟨s.toJson.text, decode_text (within_toJson h) (by decide) ?_⟩
    rw [reread_toJson]
    exact read_toJson h .text

/-! ## The length of a measure -/

theorem expected_eq_none_iff (h : s.InWords) : Checked.expected s = none ↔ s.denominator = 0 := by
  by_cases hzero : s.denominator = 0
  · have hstops : Checked.expected s = none := by
      rw [Checked.expected, hzero, Option.bind_eq_bind, Option.bind_eq_none_iff]
      intro n _
      rfl
    simp [hstops, hzero]
  · rw [Checked.expected_of_pos h.numerator_lt h.denominator_lt (Nat.pos_of_ne_zero hzero)]
    simp [hzero]

theorem Proper.hasLength (h : s.Proper) : s.HasLength :=
  ⟨_, h.measureLength.pos, Checked.expected_eq h⟩

/-- A numerator of zero leaves no length, and a denominator of zero is divided by. -/
theorem hasLength_iff (h : s.InWords) : s.HasLength ↔ s.Proper := by
  constructor
  · intro ⟨q, hq, hlength⟩
    have hd : 0 < s.denominator := by
      apply Nat.pos_of_ne_zero
      intro hzero
      rw [(expected_eq_none_iff h).2 hzero] at hlength
      cases hlength
    rw [Checked.expected_of_pos h.numerator_lt h.denominator_lt hd, Option.some.injEq] at hlength
    have hq' : q = s.numerator * 4 / s.denominator := by
      rw [← Beats.toRat_ofRat q, ← hlength, Beats.toRat_ofRat]
    have hn : 0 < s.numerator := by
      apply Nat.pos_of_ne_zero
      intro hzero
      rw [hq', hzero] at hq
      simp at hq
    exact ⟨hn, h.numerator_lt, hd, h.denominator_lt⟩
  · intro hproper
    exact hproper.hasLength

/--
**What is made is positive, what is read need not be.** A signature that is made on one of the
checked ways has two positive parts, and its measures have a positive length; every such signature
can be made, and two words make it if neither is zero. A signature that is read from a document may
be any two words. It has a length only if both are positive, and the length divides by zero exactly
if the denominator is zero.
-/
theorem positive_of_made (s : TimeSignature) :
    (s.Made ↔ s.Proper) ∧
      (s.Made → s.HasLength ∧ s.expected = ofRat (s.numerator * 4 / s.denominator)) ∧
      (∀ n d : Nat, n < 2 ^ 32 → d < 2 ^ 32 → (check n d = .ok s ↔ s = ⟨n, d⟩ ∧ 0 < n ∧ 0 < d)) ∧
      ((∃ text, decode (record.read .text) text = .ok s) ↔ s.InWords) ∧
      ∀ source v, record.read source v = .ok s →
        (s.HasLength ↔ s.Proper) ∧ (Checked.expected s = none ↔ s.denominator = 0) := by
  refine ⟨made_iff_proper, ?length, ?parts, decode_record_iff, ?read⟩
  case length =>
    intro h
    have hproper := made_iff_proper.1 h
    exact ⟨hproper.hasLength, Checked.expected_eq_of_checked (Checked.expected_eq hproper)⟩
  case parts =>
    intro n d hn hd
    exact check_words_iff hn hd
  case read =>
    intro source v h
    have hwords : s.InWords := record_ensures source v s h
    exact ⟨hasLength_iff hwords, expected_eq_none_iff hwords⟩

def threeOverZero : String := "\x7b\"numerator\":3,\"denominator\":0\x7d"

set_option maxRecDepth 20000 in
theorem parse_threeOverZero : Json.parse? threeOverZero =
    some (.object [("numerator", .int 3), ("denominator", .int 0)]) := by
  rfl

/-- Three over zero is read, although it cannot be made, and its measures have no length. -/
theorem positive_of_made_of_zero : decode (record.read .text) threeOverZero = .ok ⟨3, 0⟩ ∧
    ¬ Made ⟨3, 0⟩ ∧ (∀ s, check 3 0 ≠ .ok s) ∧ ¬ HasLength ⟨3, 0⟩ ∧
    Checked.expected ⟨3, 0⟩ = none := by
  have hread : record.read .text (.object [("numerator", .int 3), ("denominator", .int 0)]) =
      .ok ⟨3, 0⟩ := rfl
  obtain ⟨hmade, -, -, -, hrest⟩ := positive_of_made ⟨3, 0⟩
  obtain ⟨hlength, hstops⟩ := hrest .text _ hread
  have hproper : ¬ Proper ⟨3, 0⟩ := fun h => absurd h.denominator_pos (by decide)
  refine ⟨?_, fun h => hproper (hmade.1 h), ?_, fun h => hproper (hlength.1 h), hstops.2 rfl⟩
  · rw [decode, parse_threeOverZero]
    rfl
  · intro s h
    cases h

end TimeSignature

end MeterCheck
