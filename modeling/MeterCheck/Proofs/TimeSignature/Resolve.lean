import MeterCheck.Proofs.Report.Carry
import Mathlib.Algebra.Group.Nat.Defs

/-!
# Resolved time signatures

* `TimeSignature.Proper`: what holds of the parts of a signature that has been resolved;
* `Resolves.proper`: every specification resolves to such a signature;
* `SignatureSpec.resolve_eq_ok`, `resolve_eq_error`: what a specification resolves to;
* `SignatureSpec.resolve_ofSignature`: resolving such a signature once more gives it back.
-/

namespace MeterCheck

/-- Both parts are positive unsigned 32-bit words. -/
structure TimeSignature.Proper (s : TimeSignature) : Prop where
  numerator_pos : 0 < s.numerator
  numerator_lt : s.numerator < 2 ^ 32
  denominator_pos : 0 < s.denominator
  denominator_lt : s.denominator < 2 ^ 32

theorem SignaturePart.check_eq_ok {part : SignaturePart} {n : Int} {k : Nat} :
    part.check n = .ok k ↔ n = k ∧ 0 < k ∧ k < 2 ^ 32 := by
  unfold check
  split
  · rw [Except.ok.injEq]
    omega
  · simp only [reduceCtorEq, false_iff]
    omega

namespace TimeSignature

theorem check_eq_ok {n d : Int} {s : TimeSignature} :
    check n d = .ok s ↔ n = s.numerator ∧ d = s.denominator ∧ s.Proper := by
  constructor
  · intro h
    rw [check] at h
    obtain ⟨n', hn, hrest⟩ := bind_eq_ok.1 h
    obtain ⟨d', hd, hpair⟩ := bind_eq_ok.1 hrest
    obtain ⟨rfl, hn0, hn1⟩ := SignaturePart.check_eq_ok.1 hn
    obtain ⟨rfl, hd0, hd1⟩ := SignaturePart.check_eq_ok.1 hd
    cases hpair
    exact ⟨rfl, rfl, hn0, hn1, hd0, hd1⟩
  · rintro ⟨rfl, rfl, h⟩
    have hn : SignaturePart.numerator.check s.numerator = .ok s.numerator :=
      SignaturePart.check_eq_ok.2 ⟨rfl, h.numerator_pos, h.numerator_lt⟩
    have hd : SignaturePart.denominator.check s.denominator = .ok s.denominator :=
      SignaturePart.check_eq_ok.2 ⟨rfl, h.denominator_pos, h.denominator_lt⟩
    rw [check, hn, hd]
    rfl

theorem proper_of_parse {text : String} {s : TimeSignature} (h : parse text = .ok s) :
    s.Proper := by
  unfold parse at h
  split at h
  · obtain ⟨n, _, h⟩ := bind_eq_ok.1 h
    obtain ⟨d, _, h⟩ := bind_eq_ok.1 h
    exact (check_eq_ok.1 h).2.2
  · cases h

theorem proper_common : common.Proper := by
  constructor <;> decide

end TimeSignature

namespace SignatureSpec

theorem resolve_eq_ok {spec : SignatureSpec} {s : TimeSignature} :
    spec.resolve = .ok s ↔ spec.check = .ok s := by
  rw [resolve]
  exact mapError_eq_ok

/-- An error quotes the specification and tells its first fault. -/
theorem resolve_eq_error {spec : SignatureSpec} {e : SignatureError} :
    spec.resolve = .error e ↔ e.input = spec.input ∧ spec.check = .error e.fault := by
  rw [resolve, mapError_eq_error]
  constructor
  · rintro ⟨fault, hfault, rfl⟩
    exact ⟨rfl, hfault⟩
  · rintro ⟨hinput, hfault⟩
    exact ⟨e.fault, hfault, hinput ▸ rfl⟩

theorem resolve_ofSignature {s : TimeSignature} (h : s.Proper) :
    (ofSignature s).resolve = .ok s :=
  resolve_eq_ok.2 (TimeSignature.check_eq_ok.2 ⟨rfl, rfl, h⟩)

end SignatureSpec

theorem Resolves.proper {spec : Option SignatureSpec} {s : TimeSignature} (h : Resolves spec s) :
    s.Proper := by
  cases spec with
  | none =>
    cases h
    exact TimeSignature.proper_common
  | some spec =>
    have hcheck := SignatureSpec.resolve_eq_ok.1 h
    cases spec with
    | text => exact TimeSignature.proper_of_parse hcheck
    | pair => exact (TimeSignature.check_eq_ok.1 hcheck).2.2

/-- Every result of a report is the verdict on a measure, under a signature that was checked. -/
theorem Score.exists_judge_of_ok {s : Score} {settings : Settings} {r : Report}
    (h : s.validate settings = .ok r) {x : MeasureResult} (hx : x ∈ r.results) :
    ∃ m ∈ s.measures, ∃ signature i, signature.Proper ∧
      x = m.judge signature (settings.positionOf i s.measures.length) settings := by
  obtain ⟨i, hi⟩ := List.getElem?_of_mem hx
  have hlt : i < s.measures.length :=
    length_results_of_ok h ▸ (List.getElem?_eq_some_iff.1 hi).1
  obtain ⟨_, signature, _, hresolves, hresult⟩ := result_of_ok h (List.getElem?_eq_getElem hlt)
  cases hi.symm.trans hresult
  exact ⟨_, List.getElem_mem hlt, signature, i, hresolves.proper, rfl⟩

end MeterCheck
