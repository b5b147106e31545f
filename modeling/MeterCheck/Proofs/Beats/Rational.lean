import MeterCheck.Beats
import Mathlib.Data.Rat.Lemmas
import Mathlib.Algebra.Order.Ring.Unbundled.Rat
import Mathlib.Tactic.FieldSimp
import Mathlib.Tactic.Ring
import Mathlib.Tactic.Linarith
import Mathlib.Tactic.Positivity
import Mathlib.Tactic.NormNum

/-!
# Beats as rational numbers

* `Beats.toRat`: the number that a fraction stands for;
* `Beats.ofRat`: a number in lowest terms over a positive denominator, the form of every result;
* `Reduced.eq_of_toRat_eq`: it is the only form in lowest terms;
* `make_eq_ofRat`: reducing a fraction gives that form.
-/

namespace MeterCheck

/-- A signed 64-bit word. -/
def IsWord (n : Int) : Prop := -(2 ^ 63) ≤ n ∧ n < 2 ^ 63

instance (n : Int) : Decidable (IsWord n) := inferInstanceAs (Decidable (_ ∧ _))

theorem isSigned64_iff (n : Int) : Text.isSigned64 n = true ↔ IsWord n := by
  simp [Text.isSigned64, IsWord]

theorem word_eq {n : Int} (h : IsWord n) : word n = n := by
  obtain ⟨_, _⟩ := h
  apply Int.bmod_eq_of_le <;> omega

namespace Beats

def toRat (a : Beats) : ℚ := a.numer / a.denom

def ofRat (q : ℚ) : Beats := ⟨q.num, q.den⟩

@[simp]
theorem toRat_ofRat (q : ℚ) : (ofRat q).toRat = q := Rat.num_div_den q

@[simp]
theorem numer_ofRat (q : ℚ) : (ofRat q).numer = q.num := rfl

@[simp]
theorem denom_ofRat (q : ℚ) : (ofRat q).denom = q.den := rfl

theorem denom_ofRat_pos (q : ℚ) : 0 < (ofRat q).denom := Int.natCast_pos.2 q.den_pos

theorem zero_eq_ofRat : zero = ofRat 0 := rfl

/-! ## Lowest terms -/

/-- Lowest terms over a positive denominator. -/
structure Reduced (a : Beats) : Prop where
  denom_pos : 0 < a.denom
  coprime : a.numer.gcd a.denom = 1

theorem reduced_ofRat (q : ℚ) : (ofRat q).Reduced := ⟨denom_ofRat_pos q, q.reduced⟩

/-- Every fraction in lowest terms is the one of its value. -/
theorem Reduced.eq_ofRat {a : Beats} (h : a.Reduced) : a = ofRat a.toRat := by
  obtain ⟨n, d⟩ := a
  have hnum : ((n : ℚ) / d).num = n := Rat.num_div_eq_of_coprime h.denom_pos h.coprime
  have hden : (((n : ℚ) / d).den : Int) = d := Rat.den_div_eq_of_coprime h.denom_pos h.coprime
  simp only [ofRat, toRat, hnum, hden]

theorem Reduced.eq_of_toRat_eq {a b : Beats} (ha : a.Reduced) (hb : b.Reduced)
    (h : a.toRat = b.toRat) : a = b := by
  rw [ha.eq_ofRat, hb.eq_ofRat, h]

/-- Dividing by the greatest common divisor gives the parts of the rational number. -/
theorem num_den_of_gcd {n d : Int} (hd : 0 < d) :
    ((n : ℚ) / d).num = n.tdiv (n.gcd d) ∧ (((n : ℚ) / d).den : Int) = d.tdiv (n.gcd d) := by
  have hg : 0 < n.gcd d := Int.gcd_pos_of_ne_zero_right n hd.ne'
  obtain ⟨n', hn⟩ := Int.gcd_dvd_left n d
  obtain ⟨d', hd'⟩ := Int.gcd_dvd_right n d
  generalize hgen : n.gcd d = g at hg hn hd'
  have hgz : (g : Int) ≠ 0 := by exact_mod_cast hg.ne'
  have hd'pos : 0 < d' := by
    rw [hd'] at hd
    exact pos_of_mul_pos_right hd (by positivity)
  have hcop : Nat.Coprime n'.natAbs d'.natAbs := by
    have h := Int.gcd_div_gcd_div_gcd (i := n) (j := d) (by rw [hgen]; exact hg)
    rw [hgen, hn, hd', Int.mul_ediv_cancel_left _ hgz, Int.mul_ediv_cancel_left _ hgz] at h
    exact h
  have hq : (n : ℚ) / d = n' / d' := by
    have hgq : (g : ℚ) ≠ 0 := by exact_mod_cast hg.ne'
    rw [hn, hd']
    push_cast
    rw [mul_div_mul_left _ _ hgq]
  rw [hq, Rat.num_div_eq_of_coprime hd'pos hcop, Rat.den_div_eq_of_coprime hd'pos hcop, hn, hd',
    Int.mul_tdiv_cancel_left _ hgz, Int.mul_tdiv_cancel_left _ hgz]
  exact ⟨rfl, rfl⟩

theorem make_eq_ofRat {n d : Int} (hd : 0 < d) : make n d = ofRat (n / d) := by
  obtain ⟨hnum, hden⟩ := num_den_of_gcd (n := n) hd
  unfold make
  split
  · rename_i h0
    simp [h0, ofRat]
  · split
    · rename_i hnd
      have hdq : (d : ℚ) ≠ 0 := by exact_mod_cast hd.ne'
      simp [hnd, ofRat, div_self hdq]
    · have hpos : ¬ d.tdiv (n.gcd d) < 0 := by
        rw [← hden]
        omega
      simp only [hpos, ↓reduceIte, ofRat, hnum, hden]

end Beats

end MeterCheck
