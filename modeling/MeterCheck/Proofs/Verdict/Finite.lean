import MeterCheck.Proofs.Binary64.Bounded
import MeterCheck.Proofs.Verdict.Checked

/-!
# Beats in a verdict are finite

A sum of durations may leave the words, but only in its numerator: the denominators divide numbers
that are small. So nothing is divided by zero, and the doubles that are reported are finite.

* `Beats.Over`: a word over a divisor of a number;
* `Beats.Over.atMost_toDouble`: such beats are a finite double;
* `Measure.finite_judge`: so are all beats of a verdict.
-/

namespace MeterCheck

theorem isWord_word (n : Int) : IsWord (word n) := by
  have hlow := Int.le_bmod (x := n) (m := 0x10000000000000000) (by decide)
  have hhigh := Int.bmod_lt (x := n) (m := 0x10000000000000000) (by decide)
  unfold word
  constructor <;> omega

/-- What is left of a positive number when a divisor is taken out. -/
theorem tdiv_spec {g m : Int} (hg : 0 < g) (hm : 0 < m) (hdvd : g ∣ m) :
    0 < m.tdiv g ∧ m.tdiv g ∣ m := by
  obtain ⟨q, rfl⟩ := hdvd
  rw [Int.mul_tdiv_cancel_left _ hg.ne']
  exact ⟨pos_of_mul_pos_right hm hg.le, Dvd.intro_left g rfl⟩

namespace Beats

/-- A word over a positive divisor of `d`. -/
structure Over (d : Nat) (a : Beats) : Prop where
  numer_word : IsWord a.numer
  denom_pos : 0 < a.denom
  denom_dvd : a.denom ∣ d

variable {a b : Beats} {d e : Nat}

namespace Over

theorem zero (d : Nat) : Over d zero := ⟨by decide, by decide, one_dvd _⟩

theorem make {n m : Int} (hn : IsWord n) (hm : 0 < m) (hdvd : m ∣ d) : Over d (make n m) := by
  obtain ⟨hnum, hden⟩ := num_den_of_gcd (n := n) hm
  have hg : (0 : Int) < n.gcd m := by exact_mod_cast Int.gcd_pos_of_ne_zero_right n hm.ne'
  obtain ⟨hpos, hquotient⟩ := tdiv_spec hg hm (Int.gcd_dvd_right n m)
  rw [make_eq_ofRat hm]
  refine ⟨?_, ?_, ?_⟩
  · rw [numer_ofRat, hnum]
    exact Checked.isWord_tdiv hn hg
  · rw [denom_ofRat, hden]
    exact hpos
  · rw [denom_ofRat, hden]
    exact hquotient.trans hdvd

/-- A sum or a difference: the numerator wraps around, the denominator does not. -/
theorem combine (f : Int → Int → Int) (ha : a.Over d) (hb : b.Over e) (hd : 0 < d) (he : 0 < e)
    (hlt : d * e < 2 ^ 63) :
    Over (d.lcm e) (if a.denom = b.denom then Beats.make (word (f a.numer b.numer)) b.denom
      else
        let l := Beats.lcm a.denom b.denom
        Beats.make (word (f (a.numerOver l) (b.numerOver l))) l) := by
  have hdvd : (b.denom : Int) ∣ (d.lcm e : Nat) :=
    hb.denom_dvd.trans (Int.natCast_dvd_natCast.2 (Nat.dvd_lcm_right d e))
  split
  · exact make (isWord_word _) hb.denom_pos hdvd
  · obtain ⟨m, hm⟩ := Int.eq_ofNat_of_zero_le ha.denom_pos.le
    obtain ⟨n, hn⟩ := Int.eq_ofNat_of_zero_le hb.denom_pos.le
    have hmd : m ∣ d := Int.natCast_dvd_natCast.1 (hm ▸ ha.denom_dvd)
    have hne : n ∣ e := Int.natCast_dvd_natCast.1 (hn ▸ hb.denom_dvd)
    have hm0 : 0 < m := Nat.pos_of_dvd_of_pos hmd hd
    have hn0 : 0 < n := Nat.pos_of_dvd_of_pos hne he
    have hmn : m * n < 2 ^ 63 :=
      (Nat.mul_le_mul (Nat.le_of_dvd hd hmd) (Nat.le_of_dvd he hne)).trans_lt hlt
    have hlcm := Checked.lcm_eq_of_checked (Checked.lcm_of_words hm0 hn0 hmn)
    rw [hm, hn, hlcm]
    refine make (isWord_word _) ?_ ?_
    · exact_mod_cast Nat.lcm_pos hm0 hn0
    · exact_mod_cast
        Nat.lcm_dvd (hmd.trans (Nat.dvd_lcm_left d e)) (hne.trans (Nat.dvd_lcm_right d e))

theorem add (ha : a.Over d) (hb : b.Over e) (hd : 0 < d) (he : 0 < e) (hlt : d * e < 2 ^ 63) :
    (a + b).Over (d.lcm e) :=
  combine (· + ·) ha hb hd he hlt

theorem sub (ha : a.Over d) (hb : b.Over e) (hd : 0 < d) (he : 0 < e) (hlt : d * e < 2 ^ 63) :
    (a - b).Over (d.lcm e) :=
  combine (· - ·) ha hb hd he hlt

theorem mul_ofInt (ha : a.Over d) (hd : 0 < d) (hlt : d < 2 ^ 63) (n : Int) :
    (a * ofInt n).Over d := by
  have hg : (0 : Int) < a.denom.gcd n := by
    exact_mod_cast Int.gcd_pos_of_ne_zero_left n ha.denom_pos.ne'
  obtain ⟨hpos, hquotient⟩ := tdiv_spec hg ha.denom_pos (Int.gcd_dvd_left a.denom n)
  have hdvd := hquotient.trans ha.denom_dvd
  have hle : a.denom.tdiv (a.denom.gcd n) ≤ d := Int.le_of_dvd (by exact_mod_cast hd) hdvd
  have hword : word (a.denom.tdiv (a.denom.gcd n)) = a.denom.tdiv (a.denom.gcd n) :=
    word_eq ⟨by omega, by omega⟩
  change Over d (Beats.mul a (ofInt n))
  simp only [Beats.mul, ofInt, Int.gcd_one, Nat.cast_one, Int.tdiv_one, mul_one, hword]
  exact make (isWord_word _) hpos hdvd

theorem abs (ha : a.Over d) : a.abs.Over d := by
  unfold Beats.abs
  split
  · exact ⟨isWord_word _, ha.denom_pos, ha.denom_dvd⟩
  · exact ha

/-- The rounded parts have a finite quotient. -/
theorem atMost_toDouble (ha : a.Over d) (hd : 0 < d) (hlt : d < 2 ^ 63) :
    a.toDouble.AtMost 64 := by
  obtain ⟨n, hn⟩ := Int.eq_ofNat_of_zero_le ha.denom_pos.le
  have hn1 : 1 ≤ n := by
    have hpos := ha.denom_pos
    omega
  have hle : n ≤ d := Nat.le_of_dvd hd (Int.natCast_dvd_natCast.1 (hn ▸ ha.denom_dvd))
  have hmax : 2 ^ 63 < (2 ^ 54 - 1) * 2 ^ 970 := by decide +kernel
  have hsmall := Binary64.natCast_lt_overflow ((hle.trans_lt hlt).trans hmax)
  have hnumer : (Binary64.ofInt a.numer).AtMost 63 := by
    obtain ⟨hlow, hhigh⟩ := ha.numer_word
    have hbound : a.numer.natAbs ≤ 2 ^ 63 := by omega
    exact Binary64.atMost_ofInt (by norm_num) (by norm_num) (by exact_mod_cast hbound)
  have hdenom : Binary64.ofInt a.denom = .ofNat n := by
    rw [hn]
    exact congrArg (Binary64.nearest · n 1) (decide_eq_false (by omega))
  rw [toDouble, hdenom]
  exact hnumer.div_ofNat hn1 hsmall (by norm_num) (by norm_num)

end Over

end Beats

/-! ## Durations -/

/-- Every length is a number of sixteenths of a quarter note, also when its numerator wraps. -/
theorem over_noteValue? {unit : String} {a : Beats} (h : noteValue? unit = some a) :
    a.Over 16 := by
  obtain ⟨hnonneg, hle, hpos, hdvd, -⟩ := noteValues_onGrid _ (Table.mem_of_lookup h)
  exact ⟨⟨le_trans (by decide) hnonneg, hle.trans_lt (by decide)⟩, hpos, hdvd⟩

theorem Value.over_ofOption {o : Option Beats} (h : ∀ a ∈ o, a.Over 16) :
    (ofOption o).beats.Over 16 := by
  cases o with
  | none => exact .zero 16
  | some a => exact h a rfl

theorem over_multiple? (n : Nat) (unit : String) : ∀ a ∈ multiple? n unit, a.Over 16 := by
  intro a ha
  obtain ⟨b, hb, rfl⟩ := Option.map_eq_some_iff.1 ha
  exact (over_noteValue? hb).mul_ofInt (by decide) (by decide) n

theorem Piece.over_value (p : Piece) : p.value.beats.Over 16 := by
  cases p with
  | blank => exact .zero 16
  | name n => exact Value.over_ofOption fun _ => over_noteValue?
  | product multiplier base => exact Value.over_ofOption (over_multiple? multiplier base)
  | count number unit => exact Value.over_ofOption (over_multiple? number.value unit)

theorem over_foldl_add {terms : List Beats} {a : Beats} (ha : a.Over 16)
    (h : ∀ b ∈ terms, b.Over 16) : (terms.foldl (· + ·) a).Over 16 := by
  induction terms generalizing a with
  | nil => exact ha
  | cons b terms ih =>
    obtain ⟨hb, hrest⟩ := List.forall_mem_cons.1 h
    exact ih (ha.add hb (by decide) (by decide) (by decide)) hrest

namespace Duration

mutual

theorem over_value : ∀ d : Duration, d.value.beats.Over 16
  | .piece p => p.over_value
  | .sum pieces => by
    rw [value, Value.sum, Checked.foldl_value_add]
    refine over_foldl_add (.zero 16) fun b hb => ?_
    obtain ⟨v, hv, rfl⟩ := List.mem_map.1 hb
    obtain ⟨p, _, rfl⟩ := List.mem_map.1 hv
    exact p.over_value
  | .sequence items => over_lastValue items

theorem over_lastValue : ∀ items : List Duration, (lastValue items).beats.Over 16
  | [] => .zero 16
  | [d] => over_value d
  | _ :: d :: rest => over_lastValue (d :: rest)

end

end Duration

/-! ## Verdicts -/

theorem over_tally (events : List Event) : (tally events).total.Over 16 := by
  rw [tally, Checked.total_tally]
  refine over_foldl_add (.zero 16) fun b hb => ?_
  obtain ⟨v, hv, rfl⟩ := List.mem_map.1 hb
  obtain ⟨e, _, rfl⟩ := List.mem_map.1 hv
  exact e.duration.over_value

theorem TimeSignature.Proper.over_expected {s : TimeSignature} (h : s.Proper) :
    s.expected.Over s.denominator := by
  have hn := h.numerator_lt
  have hd := h.denominator_pos
  exact .make ⟨by omega, by omega⟩ (by omega) dvd_rfl

/-- An error may have wrapped around too. -/
theorem TimeSignature.Proper.over_error {s : TimeSignature} (h : s.Proper) (events : List Event) :
    ((tally events).total - s.expected).abs.Over (Nat.lcm 16 s.denominator) := by
  have hpos := h.denominator_pos
  have hlt := h.denominator_lt
  exact ((over_tally events).sub h.over_expected (by decide) hpos (by omega)).abs

/-- All beats of a result are finite doubles. -/
structure MeasureResult.Finite (r : MeasureResult) : Prop where
  expected : r.expected.toDouble.AtMost 64
  duration : ∀ hand, (r.hands.get hand).duration.toDouble.AtMost 64
  error : ∀ hand, (r.hands.get hand).error.toDouble.AtMost 64

/-- **No verdict has an infinite number**, whatever the events. -/
theorem Measure.finite_judge {s : TimeSignature} (hs : s.Proper) (m : Measure) (position : Position)
    (settings : Settings) : (m.judge s position settings).Finite := by
  have hpos := hs.denominator_pos
  have hlt := hs.denominator_lt
  have hexpected := hs.over_expected
  have hlcm : Nat.lcm 16 s.denominator ≤ 16 * s.denominator := Nat.lcm_le_mul (by decide) hpos
  refine ⟨hexpected.atMost_toDouble hpos (by omega), fun hand => ?_, fun hand => ?_⟩
  · rw [judge, Hands.get_map]
    exact (over_tally _).atMost_toDouble (by decide) (by decide)
  · rw [judge, Hands.get_map]
    exact (hs.over_error _).atMost_toDouble (Nat.lcm_pos (by decide) hpos) (by omega)

end MeterCheck
