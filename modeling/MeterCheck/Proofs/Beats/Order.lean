import MeterCheck.Proofs.Beats.Checked
import Mathlib.Order.Compare

/-!
# The order of beats

* `Beats.SignsAgree`: where the order of two fractions is that of the numbers they stand for. It
  fails only for equal numerators over denominators of different signs;
* `Beats.cmp_compares`: there the order is the mathematical one;
* `Checked.cmp_eq_of_checked`: comparing by whole parts gives the same order when it is not stopped;
* `Checked.cmp_isSome_iff`: it is stopped only by the quotient of the least word and minus one;
* `Checked.le_eq_some_iff`: what a fraction as it was written is found to be at most;
* `Beats.Ordered`: fractions whose comparison gives the order of the rational numbers.
-/

namespace MeterCheck

/-- Scaling by a positive number keeps the order. -/
theorem compare_compares_of_pos {m n : Int} {x y c : ℚ} (hc : 0 < c) (hm : (m : ℚ) = x * c)
    (hn : (n : ℚ) = y * c) : (compare m n).Compares x y := by
  have h := (compare_iff m n).1 rfl
  generalize compare m n = o at h
  have hlt : m < n ↔ x < y := by
    rw [← mul_lt_mul_iff_of_pos_right hc, ← hm, ← hn, Int.cast_lt]
  have hgt : n < m ↔ y < x := by
    rw [← mul_lt_mul_iff_of_pos_right hc, ← hm, ← hn, Int.cast_lt]
  have heq : m = n ↔ x = y := by
    rw [← mul_left_inj' hc.ne', ← hm, ← hn, Int.cast_inj]
  cases o with
  | lt => exact hlt.1 h
  | eq => exact heq.1 h
  | gt => exact hgt.1 h

/-- Scaling by a negative number reverses it. -/
theorem compare_compares_of_neg {m n : Int} {x y c : ℚ} (hc : c < 0) (hm : (m : ℚ) = x * c)
    (hn : (n : ℚ) = y * c) : (compare n m).Compares x y := by
  have h := compare_compares_of_pos (x := -y) (y := -x) (neg_pos.2 hc) (by rw [hn]; ring)
    (by rw [hm]; ring) (m := n) (n := m)
  generalize compare n m = o at h
  cases o with
  | lt => exact neg_lt_neg_iff.1 h
  | eq => exact (neg_injective h).symm
  | gt => exact neg_lt_neg_iff.1 h

namespace Beats

/-- Numerators that are equal and not zero stand over denominators of one sign. -/
def SignsAgree (a b : Beats) : Prop :=
  a.numer = b.numer → a.numer = 0 ∨ (a.denom < 0 ↔ b.denom < 0)

instance (a b : Beats) : Decidable (SignsAgree a b) :=
  inferInstanceAs (Decidable (_ → _))

/-- Over one numerator the denominators stand in the reverse order, if they have one sign. -/
theorem compares_of_numer_eq {a b : Beats} (ha : a.denom ≠ 0) (hb : b.denom ≠ 0)
    (hn : a.numer = b.numer) (h0 : a.numer ≠ 0) (hsame : a.denom < 0 ↔ b.denom < 0) :
    (if a.numer < 0 then compare a.denom b.denom else compare b.denom a.denom).Compares
      a.toRat b.toRat := by
  have haq : (a.denom : ℚ) ≠ 0 := by exact_mod_cast ha
  have hbq : (b.denom : ℚ) ≠ 0 := by exact_mod_cast hb
  have hprod : (0 : ℚ) < a.denom * b.denom := by
    rcases lt_or_gt_of_ne ha with hlt | hgt
    · exact mul_pos_of_neg_of_neg (by exact_mod_cast hlt) (by exact_mod_cast hsame.1 hlt)
    · have hpos : 0 < b.denom := by omega
      exact mul_pos (by exact_mod_cast hgt) (by exact_mod_cast hpos)
  have hnq : (a.numer : ℚ) ≠ 0 := by exact_mod_cast h0
  have hax : (b.denom : ℚ) = a.toRat * (a.denom * b.denom / a.numer) := by
    rw [toRat]
    field_simp
  have hbx : (a.denom : ℚ) = b.toRat * (a.denom * b.denom / a.numer) := by
    rw [toRat, ← hn]
    field_simp
  split
  · rename_i hneg
    exact compare_compares_of_neg (div_neg_of_pos_of_neg hprod (by exact_mod_cast hneg)) hax hbx
  · rename_i hneg
    have hpos : 0 < a.numer := by omega
    exact compare_compares_of_pos (div_pos hprod (by exact_mod_cast hpos)) hax hbx

theorem cmp_compares {a b : Beats} (ha : a.denom ≠ 0) (hb : b.denom ≠ 0) (h : SignsAgree a b) :
    (cmp a b).Compares a.toRat b.toRat := by
  have haq : (a.denom : ℚ) ≠ 0 := by exact_mod_cast ha
  have hbq : (b.denom : ℚ) ≠ 0 := by exact_mod_cast hb
  have hav : (a.numer : ℚ) = a.toRat * a.denom := (div_mul_cancel₀ _ haq).symm
  have hbv : (b.numer : ℚ) = b.toRat * b.denom := (div_mul_cancel₀ _ hbq).symm
  unfold cmp
  split
  · rename_i hd
    rw [← hd] at hbv
    split
    · rename_i hneg
      exact compare_compares_of_neg (by exact_mod_cast hneg) hav hbv
    · rename_i hneg
      have hpos : 0 < a.denom := by omega
      exact compare_compares_of_pos (by exact_mod_cast hpos) hav hbv
  · split
    · rename_i hn
      split
      · rename_i h0
        show a.toRat = b.toRat
        rw [toRat, toRat, ← hn, h0]
        simp
      · rename_i h0
        exact compares_of_numer_eq ha hb hn h0 ((h hn).resolve_left h0)
    · have hc : (0 : ℚ) < |(a.denom : ℚ)| * |(b.denom : ℚ)| := by positivity
      have hsign (d : Int) : (d : ℚ) * d.sign = |(d : ℚ)| := by
        exact_mod_cast (Int.mul_sign_self d).trans (Int.natCast_natAbs d)
      apply compare_compares_of_pos hc
      · rw [crossed]
        push_cast
        rw [hav, mul_assoc a.toRat, hsign, mul_assoc]
      · rw [crossed]
        push_cast
        rw [hbv, mul_assoc b.toRat, hsign, mul_assoc, mul_comm |(b.denom : ℚ)|]

end Beats

open Beats (SignsAgree)

/-- A fraction is its whole part and what is above it. -/
theorem toRat_eq_floor_add {n d : Int} (hd : d ≠ 0) :
    (n : ℚ) / d = n.fdiv d + (n.fmod d : ℚ) / d ∧
      0 ≤ (n.fmod d : ℚ) / d ∧ (n.fmod d : ℚ) / d < 1 := by
  have hdq : (d : ℚ) ≠ 0 := by exact_mod_cast hd
  have hval : (n : ℚ) = d * n.fdiv d + n.fmod d := by
    exact_mod_cast (Int.mul_fdiv_add_fmod n d).symm
  refine ⟨?_, ?_⟩
  · rw [eq_comm, ← mul_left_inj' hdq, add_mul, div_mul_cancel₀ _ hdq, div_mul_cancel₀ _ hdq]
    linarith
  · rcases lt_or_gt_of_ne hd with hneg | hpos
    · have h1 := Int.fmod_nonneg_of_pos (-n) (b := -d) (by omega)
      have h2 := Int.fmod_lt_of_pos (-n) (b := -d) (by omega)
      rw [Int.neg_fmod_neg] at h1 h2
      have hdneg : (d : ℚ) < 0 := by exact_mod_cast hneg
      have hr : (n.fmod d : ℚ) ≤ 0 := by exact_mod_cast (by omega : n.fmod d ≤ 0)
      have hlt : (d : ℚ) < n.fmod d := by exact_mod_cast (by omega : d < n.fmod d)
      exact ⟨div_nonneg_of_nonpos hr hdneg.le, by rwa [div_lt_one_of_neg hdneg]⟩
    · have h1 := Int.fmod_nonneg_of_pos n hpos
      have h2 := Int.fmod_lt_of_pos n hpos
      have hdpos : (0 : ℚ) < d := by exact_mod_cast hpos
      exact ⟨div_nonneg (by exact_mod_cast h1) hdpos.le,
        (div_lt_one hdpos).2 (by exact_mod_cast h2)⟩

namespace Checked

theorem floorDiv_eq_some_iff {n d q : Int} :
    floorDiv n d = some q ↔ d ≠ 0 ∧ IsWord (n.fdiv d) ∧ n.fdiv d = q := by
  unfold floorDiv
  split
  · simp_all
  · simp_all [word_eq_some_iff]

/-- Reciprocals of positive numbers stand in the reverse order. -/
theorem compares_swap_of_inv {u v : ℚ} {o : Ordering} (hu : 0 < u) (hv : 0 < v)
    (h : o.Compares u⁻¹ v⁻¹) : o.swap.Compares u v := by
  cases o with
  | lt => exact (inv_lt_inv₀ hu hv).1 h
  | eq => exact inv_injective h
  | gt => exact (inv_lt_inv₀ hv hu).1 h

theorem compare_compares_of_floor {p q : Int} {u v : ℚ} (h : p ≠ q) (hu0 : 0 ≤ u) (hu1 : u < 1)
    (hv0 : 0 ≤ v) (hv1 : v < 1) : (compare p q).Compares (p + u) (q + v) := by
  have hpq := (compare_iff p q).1 rfl
  generalize compare p q = o at hpq
  cases o with
  | lt =>
    have hle : (p : ℚ) + 1 ≤ q := by exact_mod_cast (show p < q from hpq)
    show (p : ℚ) + u < q + v
    linarith
  | eq => exact absurd hpq h
  | gt =>
    have hle : (q : ℚ) + 1 ≤ p := by exact_mod_cast (show q < p from hpq)
    show (q : ℚ) + v < p + u
    linarith

theorem compares_add_left {u v c : ℚ} {o : Ordering} (h : o.Compares u v) :
    o.Compares (c + u) (c + v) := by
  cases o with
  | lt => exact (add_lt_add_iff_left c).2 h
  | eq => exact congrArg (c + ·) h
  | gt => exact (add_lt_add_iff_left c).2 h

/-- Equal denominators or equal numerators are compared as without checks. -/
theorem cmp_eq_of_shared {a b : Beats} (h : a.denom = b.denom ∨ a.numer = b.numer) {o : Ordering}
    (ho : cmp a b = some o) : Beats.cmp a b = o := by
  rw [cmp] at ho
  unfold Beats.cmp
  by_cases hd : a.denom = b.denom
  · rw [if_pos hd] at ho ⊢
    exact Option.some.inj ho
  · have hn := h.resolve_left hd
    rw [if_neg hd, if_pos hn] at ho ⊢
    exact Option.some.inj ho

theorem cmp_isSome_of_shared {a b : Beats} (h : a.denom = b.denom ∨ a.numer = b.numer) :
    ∃ o, cmp a b = some o := by
  rw [cmp]
  split
  · exact ⟨_, rfl⟩
  · rename_i hd
    rw [if_pos (h.resolve_left hd)]
    exact ⟨_, rfl⟩

/-- One round of the comparison of fractions that differ in both parts. -/
theorem cmp_eq_some_iff {a b : Beats} {o : Ordering} (ha : a.denom ≠ 0) (hb : b.denom ≠ 0)
    (hd : a.denom ≠ b.denom) (hn : a.numer ≠ b.numer) :
    cmp a b = some o ↔ IsWord (a.numer.fdiv a.denom) ∧ IsWord (b.numer.fdiv b.denom) ∧
      if a.numer.fdiv a.denom ≠ b.numer.fdiv b.denom then
        o = compare (a.numer.fdiv a.denom) (b.numer.fdiv b.denom)
      else if a.numer.fmod a.denom = 0 then o = if b.numer.fmod b.denom = 0 then .eq else .lt
      else if b.numer.fmod b.denom = 0 then o = .gt
      else ∃ o', cmp ⟨a.denom, a.numer.fmod a.denom⟩ ⟨b.denom, b.numer.fmod b.denom⟩ = some o' ∧
        o = o'.swap := by
  rw [cmp, if_neg hd, if_neg hn]
  simp only [ha, ↓reduceDIte, Option.bind_eq_bind, Option.bind_eq_some_iff, floorDiv_eq_some_iff]
  constructor
  · rintro ⟨p, ⟨_, hp, rfl⟩, q, ⟨_, hq, rfl⟩, h⟩
    refine ⟨hp, hq, ?_⟩
    split
    · rename_i hpq
      rw [if_pos hpq] at h
      exact (Option.some.inj h).symm
    · rename_i hpq
      rw [if_neg hpq] at h
      split
      · rename_i hr
        rw [if_pos hr] at h
        exact (Option.some.inj h).symm
      · rename_i hr
        rw [if_neg hr] at h
        split
        · rename_i hs
          rw [if_pos hs] at h
          exact (Option.some.inj h).symm
        · rename_i hs
          rw [if_neg hs, Option.bind_eq_some_iff] at h
          obtain ⟨o', ho', h⟩ := h
          exact ⟨o', ho', (Option.some.inj h).symm⟩
  · rintro ⟨hp, hq, h⟩
    refine ⟨_, ⟨ha, hp, rfl⟩, _, ⟨hb, hq, rfl⟩, ?_⟩
    split at h
    · rename_i hpq
      rw [if_pos hpq, h]
      rfl
    · rename_i hpq
      rw [if_neg hpq]
      split at h
      · rename_i hr
        rw [if_pos hr, h]
        rfl
      · rename_i hr
        rw [if_neg hr]
        split at h
        · rename_i hs
          rw [if_pos hs, h]
          rfl
        · rename_i hs
          obtain ⟨o', ho', rfl⟩ := h
          rw [if_neg hs, ho']
          rfl

/-- Induction on the size of the first denominator, which each round makes smaller. -/
theorem cmp_compares {a b : Beats} {o : Ordering} (ha : a.denom ≠ 0) (hb : b.denom ≠ 0)
    (h : SignsAgree a b) (ho : cmp a b = some o) : o.Compares a.toRat b.toRat := by
  induction hn : a.denom.natAbs using Nat.strong_induction_on generalizing a b o with
  | _ n ih =>
    by_cases hsame : a.denom = b.denom ∨ a.numer = b.numer
    · have hcmp := Beats.cmp_compares ha hb h
      rw [← cmp_eq_of_shared hsame ho]
      exact hcmp
    · obtain ⟨hd, hnum⟩ := not_or.1 hsame
      obtain ⟨_, _, ho⟩ := (cmp_eq_some_iff ha hb hd hnum).1 ho
      obtain ⟨hx, hx0, hx1⟩ := toRat_eq_floor_add (n := a.numer) ha
      obtain ⟨hy, hy0, hy1⟩ := toRat_eq_floor_add (n := b.numer) hb
      rw [Beats.toRat, Beats.toRat, hx, hy]
      split at ho
      · rename_i hpq
        rw [ho]
        exact compare_compares_of_floor hpq hx0 hx1 hy0 hy1
      · rename_i hpq
        rw [not_not.1 hpq]
        apply compares_add_left
        have haq : (a.denom : ℚ) ≠ 0 := by exact_mod_cast ha
        have hbq : (b.denom : ℚ) ≠ 0 := by exact_mod_cast hb
        split at ho
        · rename_i hr
          rw [hr, ho, Int.cast_zero, zero_div]
          split
          · rename_i hs
            simp [hs]
          · rename_i hs
            have hsq : (b.numer.fmod b.denom : ℚ) ≠ 0 := by exact_mod_cast hs
            exact lt_of_le_of_ne hy0 (div_ne_zero hsq hbq).symm
        · rename_i hr
          have hrq : (a.numer.fmod a.denom : ℚ) ≠ 0 := by exact_mod_cast hr
          have hu : 0 < (a.numer.fmod a.denom : ℚ) / a.denom :=
            lt_of_le_of_ne hx0 (div_ne_zero hrq haq).symm
          split at ho
          · rename_i hs
            rw [hs, ho, Int.cast_zero, zero_div]
            exact hu
          · rename_i hs
            have hsq : (b.numer.fmod b.denom : ℚ) ≠ 0 := by exact_mod_cast hs
            have hv : 0 < (b.numer.fmod b.denom : ℚ) / b.denom :=
              lt_of_le_of_ne hy0 (div_ne_zero hsq hbq).symm
            obtain ⟨o', ho', rfl⟩ := ho
            apply compares_swap_of_inv hu hv
            rw [inv_div, inv_div]
            exact ih _ (hn ▸ natAbs_fmod_lt ha) hr hs (fun hden => absurd hden hd) ho' rfl

theorem cmp_eq_of_checked {a b : Beats} {o : Ordering} (ha : a.denom ≠ 0) (hb : b.denom ≠ 0)
    (ho : cmp a b = some o) : Beats.cmp a b = o := by
  by_cases hsame : a.denom = b.denom ∨ a.numer = b.numer
  · exact cmp_eq_of_shared hsame ho
  · have hagree : SignsAgree a b := fun hn => absurd (Or.inr hn) hsame
    exact (Beats.cmp_compares ha hb hagree).inj (cmp_compares ha hb hagree ho)

theorem le_eq_of_checked {a b : Beats} {t : Bool} (ha : a.denom ≠ 0) (hb : b.denom ≠ 0)
    (ht : le a b = some t) : a.le b = t := by
  obtain ⟨o, ho, rfl⟩ := Option.map_eq_some_iff.1 ht
  rw [Beats.le, cmp_eq_of_checked ha hb ho]

/-! ## When the comparison is stopped -/

/-- Neither the fraction nor what is left of it after one round is the least word over minus one. -/
structure Tame (a : Beats) : Prop where
  numer : IsWord a.numer
  denom : IsWord a.denom
  denom_ne_zero : a.denom ≠ 0
  quotient : ¬ (a.numer = -(2 ^ 63) ∧ a.denom = -1)
  reciprocal : ¬ (a.denom = -(2 ^ 63) ∧ a.numer.fmod a.denom = -1)

theorem isWord_fdiv {n d : Int} (hn : IsWord n) (hd : d ≠ 0) (h : ¬ (n = -(2 ^ 63) ∧ d = -1)) :
    IsWord (n.fdiv d) := by
  obtain ⟨_, _⟩ := hn
  have hle := Int.natAbs_fdiv_le_natAbs n d
  have hmod := natAbs_fmod_lt (n := n) hd
  have hval := Int.mul_fdiv_add_fmod n d
  by_contra hbig
  have hq : n.fdiv d = 2 ^ 63 := by
    unfold IsWord at hbig
    omega
  rw [hq] at hval
  omega

theorem tame_rest {a : Beats} (h : Tame a) (hr : a.numer.fmod a.denom ≠ 0) :
    Tame ⟨a.denom, a.numer.fmod a.denom⟩ := by
  have hlt := natAbs_fmod_lt (n := a.numer) h.denom_ne_zero
  obtain ⟨_, _⟩ := h.denom
  refine ⟨h.denom, ?_, hr, h.reciprocal, ?_⟩
  · constructor <;> dsimp only <;> omega
  · dsimp only
    omega

/-- What is left over is tame again, so the rounds go on to their end. -/
theorem cmp_isSome {a b : Beats} (ha : Tame a) (hb : Tame b) : ∃ o, cmp a b = some o := by
  induction hn : a.denom.natAbs using Nat.strong_induction_on generalizing a b with
  | _ n ih =>
    by_cases hsame : a.denom = b.denom ∨ a.numer = b.numer
    · exact cmp_isSome_of_shared hsame
    obtain ⟨hd, hnum⟩ := not_or.1 hsame
    simp only [cmp_eq_some_iff ha.denom_ne_zero hb.denom_ne_zero hd hnum,
      isWord_fdiv ha.numer ha.denom_ne_zero ha.quotient,
      isWord_fdiv hb.numer hb.denom_ne_zero hb.quotient, true_and]
    split
    · exact ⟨_, rfl⟩
    split
    · exact ⟨_, rfl⟩
    rename_i hr
    split
    · exact ⟨_, rfl⟩
    rename_i hs
    obtain ⟨o, ho⟩ := ih _ (hn ▸ natAbs_fmod_lt ha.denom_ne_zero) (tame_rest ha hr)
      (tame_rest hb hs) rfl
    exact ⟨o.swap, o, ho, rfl⟩

theorem tame_ofRat {y : ℚ} (hn : IsWord y.num) (hd : IsWord (y.den : Int)) :
    Tame (.ofRat y) := by
  have hpos : (0 : Int) < y.den := by exact_mod_cast y.den_pos
  refine ⟨hn, hd, hpos.ne', ?_, ?_⟩ <;> simp only [Beats.denom_ofRat] <;> omega

/-- The two fractions of words that cannot be compared with every number: the least word over minus
one, and its reciprocal, which gets there after one round. -/
def Stops (a : Beats) (y : ℚ) : Prop :=
  a = ⟨-(2 ^ 63), -1⟩ ∨ (a = ⟨-1, -(2 ^ 63)⟩ ∧ 0 < y ∧ y < 1)

theorem floor_eq_zero_iff {y : ℚ} : y.num.fdiv y.den = 0 ↔ 0 ≤ y ∧ y < 1 := by
  have hden : (0 : Int) < y.den := by exact_mod_cast y.den_pos
  have hlt : y < 1 ↔ y.num < y.den := by
    have hq : (0 : ℚ) < y.den := by exact_mod_cast y.den_pos
    rw [← Int.cast_lt (R := ℚ), Int.cast_natCast, ← div_lt_one hq, Rat.num_div_den]
  rw [hlt, ← Rat.num_nonneg]
  constructor
  · intro h
    have hval := Int.mul_fdiv_add_fmod y.num y.den
    have := Int.fmod_nonneg_of_pos y.num hden
    have := Int.fmod_lt_of_pos y.num hden
    rw [h] at hval
    omega
  · rintro ⟨h0, h1⟩
    exact Int.fdiv_eq_zero_of_lt h0 h1

/-- The least word over minus one has no quotient, at once or after one round. -/
theorem cmp_eq_none_of_stops {a : Beats} {y : ℚ} {o : Ordering} (h : Stops a y)
    (hy : 0 ≤ y) : cmp a (.ofRat y) ≠ some o := by
  have hpos : (0 : Int) < y.den := by exact_mod_cast y.den_pos
  have hnum : 0 ≤ y.num := Rat.num_nonneg.2 hy
  have hquot : ¬ IsWord ((-(2 ^ 63) : Int).fdiv (-1)) := by decide
  intro ho
  rcases h with rfl | ⟨rfl, hy0, hy1⟩
  · have hd : (-1 : Int) ≠ y.den := by omega
    have hn : (-(2 ^ 63) : Int) ≠ y.num := by omega
    exact hquot ((cmp_eq_some_iff (by decide) hpos.ne' hd hn).1 ho).1
  · have hd : (-(2 ^ 63) : Int) ≠ y.den := by omega
    have hn : (-1 : Int) ≠ y.num := by omega
    have hfloor := floor_eq_zero_iff.2 ⟨hy, hy1⟩
    have hrest : y.num.fmod y.den = y.num := by
      have := Int.mul_fdiv_add_fmod y.num y.den
      rw [hfloor] at this
      omega
    have hnum0 : y.num ≠ 0 := by
      have := Rat.num_pos.2 hy0
      omega
    have h := ((cmp_eq_some_iff (by decide) hpos.ne' hd hn).1 ho).2.2
    simp only [Beats.numer_ofRat, Beats.denom_ofRat, hfloor, hrest, hnum0, ↓reduceIte] at h
    rw [if_neg (by decide), if_neg (by decide)] at h
    obtain ⟨o', ho', _⟩ := h
    have hd' : (-1 : Int) ≠ y.num := by omega
    have hn' : (-(2 ^ 63) : Int) ≠ y.den := by omega
    exact hquot ((cmp_eq_some_iff (by decide) hnum0 hd' hn').1 ho').1

theorem cmp_isSome_iff {a : Beats} {y : ℚ} (hn : IsWord a.numer) (hd : IsWord a.denom)
    (hd0 : a.denom ≠ 0) (hy : 0 ≤ y) (hyn : IsWord y.num) (hyd : IsWord (y.den : Int)) :
    (∃ o, cmp a (.ofRat y) = some o) ↔ ¬ Stops a y := by
  refine ⟨fun ⟨o, ho⟩ h => cmp_eq_none_of_stops h hy ho, fun h => ?_⟩
  have hpos : (0 : Int) < y.den := by exact_mod_cast y.den_pos
  have htame := tame_ofRat hyn hyd
  by_cases hq : a.numer = -(2 ^ 63) ∧ a.denom = -1
  · exact absurd (Or.inl (by cases a; simp_all)) h
  by_cases hr : a.denom = -(2 ^ 63) ∧ a.numer.fmod a.denom = -1
  · obtain ⟨hden, hrest⟩ := hr
    have hdne : a.denom ≠ (Beats.ofRat y).denom := by
      rw [hden, Beats.denom_ofRat]
      omega
    by_cases hnum : a.numer = (Beats.ofRat y).numer
    · exact cmp_isSome_of_shared (Or.inr hnum)
    have hword := isWord_fdiv hn hd0 hq
    have hyword := isWord_fdiv htame.numer htame.denom_ne_zero htame.quotient
    simp only [cmp_eq_some_iff hd0 hpos.ne' hdne hnum, hword, hyword, true_and]
    by_cases hsame : a.numer.fdiv a.denom = (Beats.ofRat y).numer.fdiv (Beats.ofRat y).denom
    · have hfloor0 : 0 ≤ y.num.fdiv y.den := Int.fdiv_nonneg (Rat.num_nonneg.2 hy) hpos.le
      have hval := Int.mul_fdiv_add_fmod a.numer a.denom
      have hfloor := hsame
      obtain ⟨_, _⟩ := hn
      rw [Beats.numer_ofRat, Beats.denom_ofRat] at hfloor
      rw [hrest, hden, ← hden, hfloor, hden] at hval
      have hq0 : y.num.fdiv y.den = 0 := by omega
      have hy0 : y = 0 := by
        by_contra hne
        have hn1 : a.numer = -1 := by omega
        have ha : a = ⟨-1, -(2 ^ 63)⟩ := by rw [← hn1, ← hden]
        exact h (Or.inr ⟨ha, lt_of_le_of_ne hy (Ne.symm hne), (floor_eq_zero_iff.1 hq0).2⟩)
      have hyrest : (Beats.ofRat y).numer.fmod (Beats.ofRat y).denom = 0 := by
        rw [hy0]
        rfl
      refine ⟨.gt, ?_⟩
      rw [if_neg (not_not.2 hsame), if_neg (by rw [hrest]; decide), if_pos hyrest]
    · refine ⟨compare (a.numer.fdiv a.denom) (y.num.fdiv y.den), ?_⟩
      rw [if_pos hsame]
      rfl
  · exact cmp_isSome ⟨hn, hd, hd0, hq, hr⟩ htame

/-! ## At most -/

theorem bne_gt_eq_true_iff {x y : ℚ} {o : Ordering} (h : o.Compares x y) :
    (o != .gt) = true ↔ x ≤ y := by
  cases o with
  | lt => exact iff_of_true rfl (le_of_lt h)
  | eq => exact iff_of_true rfl (le_of_eq h)
  | gt => exact iff_of_false Bool.false_ne_true (not_le_of_gt h)

theorem le_ofRat {x y : ℚ} (hxn : IsWord x.num) (hxd : IsWord (x.den : Int)) (hyn : IsWord y.num)
    (hyd : IsWord (y.den : Int)) :
    le (.ofRat x) (.ofRat y) = some (decide (x ≤ y)) := by
  have hx : (0 : Int) < x.den := by exact_mod_cast x.den_pos
  have hy : (0 : Int) < y.den := by exact_mod_cast y.den_pos
  obtain ⟨o, ho⟩ := cmp_isSome (tame_ofRat hxn hxd) (tame_ofRat hyn hyd)
  have hsigns : SignsAgree (.ofRat x) (.ofRat y) :=
    fun _ => Or.inr (iff_of_false (not_lt.2 hx.le) (not_lt.2 hy.le))
  have hcompares := cmp_compares hx.ne' hy.ne' hsigns ho
  rw [Beats.toRat_ofRat, Beats.toRat_ofRat] at hcompares
  rw [le, ho, Option.map_some, Option.some_inj, Bool.eq_iff_iff, bne_gt_eq_true_iff hcompares,
    decide_eq_true_iff]

/-- A positive numerator over a negative denominator that equals the other numerator: the order of
the denominators does not tell the order of such fractions. -/
def Clashes (a : Beats) (y : ℚ) : Prop := a.denom < 0 ∧ 0 < a.numer ∧ a.numer = y.num

/-- What the comparison finds: a clash counts as larger. -/
def AtMost (a : Beats) (y : ℚ) : Prop := ¬ Clashes a y ∧ a.toRat ≤ y

theorem signsAgree_iff {a : Beats} {y : ℚ} (hy : 0 ≤ y) :
    SignsAgree a (.ofRat y) ↔ ¬ Clashes a y := by
  have hden : ¬ (y.den : Int) < 0 := by omega
  have hnum : 0 ≤ y.num := Rat.num_nonneg.2 hy
  unfold SignsAgree Clashes
  simp only [Beats.numer_ofRat, Beats.denom_ofRat, hden, iff_false]
  omega

theorem toRat_neg_of_clashes {a : Beats} {y : ℚ} (h : Clashes a y) : a.toRat < 0 :=
  div_neg_of_pos_of_neg (by exact_mod_cast h.2.1) (by exact_mod_cast h.1)

theorem le_of_clashes {a : Beats} {y : ℚ} (h : Clashes a y) : le a (.ofRat y) = some false := by
  obtain ⟨hd, hpos, hn⟩ := h
  have hden : ¬ a.denom = (Beats.ofRat y).denom := by
    rw [Beats.denom_ofRat]
    omega
  have hcmp : compare (Beats.ofRat y).denom a.denom = .gt := by
    rw [compare_gt_iff_gt, Beats.denom_ofRat]
    omega
  rw [le, cmp, if_neg hden, if_pos (Beats.numer_ofRat y ▸ hn), if_neg hpos.ne',
    if_neg (not_lt.2 hpos.le), hcmp]
  rfl

/-- The comparison gives an answer unless it is stopped. -/
theorem le_eq_some_iff {a : Beats} {y : ℚ} {b : Bool} (hn : IsWord a.numer) (hd : IsWord a.denom)
    (hd0 : a.denom ≠ 0) (hy : 0 ≤ y) (hyn : IsWord y.num) (hyd : IsWord (y.den : Int)) :
    le a (.ofRat y) = some b ↔ ¬ Stops a y ∧ (b = true ↔ AtMost a y) := by
  have hyden : (Beats.ofRat y).denom ≠ 0 := by
    have : (0 : Int) < y.den := by exact_mod_cast y.den_pos
    exact this.ne'
  have hsome := cmp_isSome_iff hn hd hd0 hy hyn hyd
  have hvalue {o : Ordering} (ho : cmp a (.ofRat y) = some o) :
      (o != .gt) = true ↔ AtMost a y := by
    by_cases hclash : Clashes a y
    · have hle := le_of_clashes hclash
      rw [le, ho, Option.map_some, Option.some_inj] at hle
      exact iff_of_false (by rw [hle]; decide) fun h => h.1 hclash
    · have hcompares := cmp_compares hd0 hyden ((signsAgree_iff hy).2 hclash) ho
      rw [Beats.toRat_ofRat] at hcompares
      rw [bne_gt_eq_true_iff hcompares, AtMost, and_iff_right hclash]
  rw [le, Option.map_eq_some_iff]
  constructor
  · rintro ⟨o, ho, rfl⟩
    exact ⟨hsome.1 ⟨o, ho⟩, hvalue ho⟩
  · rintro ⟨hstops, hb⟩
    obtain ⟨o, ho⟩ := hsome.2 hstops
    exact ⟨o, ho, Bool.eq_iff_iff.2 ((hvalue ho).trans hb.symm)⟩

/-- A fraction that stops one comparison and is not at most another number stops that as well. -/
theorem stops_of_not_atMost {a : Beats} {x y : ℚ} (hy : 0 < y) (h : Stops a x)
    (hle : ¬ AtMost a y) : Stops a y := by
  rcases h with rfl | ⟨rfl, _, _⟩
  · exact Or.inl rfl
  · refine Or.inr ⟨rfl, hy, ?_⟩
    by_contra hlarge
    apply hle
    refine ⟨fun hclash => absurd hclash.2.1 (by decide), le_trans ?_ (not_lt.1 hlarge)⟩
    norm_num [Beats.toRat]

end Checked

/-! ## Fractions in order -/

namespace Beats

/-- Comparing any two of them gives the order of the rational numbers they stand for. -/
def Ordered (as : List Beats) : Prop := ∀ a ∈ as, ∀ b ∈ as, a.le b = true ↔ a.toRat ≤ b.toRat

theorem ordered_of_pos {as : List Beats} (h : ∀ a ∈ as, 0 < a.denom) : Ordered as := by
  intro a ha b hb
  have hapos := h a ha
  have hbpos := h b hb
  have hsigns : SignsAgree a b := fun _ => .inr (by omega)
  exact Checked.bne_gt_eq_true_iff (cmp_compares hapos.ne' hbpos.ne' hsigns)

theorem le_ofRat_iff {a : Beats} (ha : 0 < a.denom) (y : ℚ) :
    a.le (ofRat y) = true ↔ a.toRat ≤ y := by
  have hordered : Ordered [a, ofRat y] := ordered_of_pos (by simpa using ⟨ha, y.den_pos⟩)
  have hle := hordered a (by simp) (ofRat y) (by simp)
  rwa [toRat_ofRat] at hle

theorem min_le_iff {m e a : Beats} (h : Ordered [m, e, a]) :
    (m.min e).le a = true ↔ m.toRat ≤ a.toRat ∨ e.toRat ≤ a.toRat := by
  have hme := h m (by simp) e (by simp)
  have hma := h m (by simp) a (by simp)
  have hea := h e (by simp) a (by simp)
  unfold Beats.min
  split
  · rename_i hle
    rw [hma]
    exact ⟨.inl, fun h => h.elim id (hme.1 hle).trans⟩
  · rename_i hgt
    have hlt : e.toRat < m.toRat := not_le.1 fun hle => hgt (hme.2 hle)
    rw [hea]
    exact ⟨.inr, fun h => h.elim hlt.le.trans id⟩

end Beats

end MeterCheck
