import MeterCheck.Duration.Basic
import MeterCheck.Table
import MeterCheck.Proofs.Beats.Checked
import MeterCheck.Proofs.Text.Numeral

/-!
# Exact lengths

* `Duration.length`: the length of a duration as a rational number;
* `Duration.Fits`: every partial sum of it fits a word;
* `Checked.value`: the length in checked arithmetic;
* `Checked.value_eq_some_iff`: that is the exact length if all partial sums fit, and is stopped
  otherwise.
-/

namespace MeterCheck

open Beats (ofRat toRat)

/-- The length of a name, zero for one that is not known. -/
def lengthOf (unit : String) : ℚ := (noteValue? unit).elim 0 toRat

namespace Piece

def length : Piece → ℚ
  | blank => 0
  | name n => lengthOf n
  | product multiplier base => multiplier * lengthOf base
  | count number unit => number.value * lengthOf unit

/-- A multiplier is an unsigned 32-bit word. -/
def WordSized : Piece → Prop
  | product multiplier _ => multiplier < 2 ^ 32
  | _ => True

end Piece

/-- From `x` on, every partial sum fits a word over the common denominator of its two terms. -/
def SumsFit (x : ℚ) : List ℚ → Prop
  | [] => True
  | y :: ys => (x + y) * x.den.lcm y.den < 2 ^ 63 ∧ SumsFit (x + y) ys

namespace Duration

mutual

def length : Duration → ℚ
  | .piece p => p.length
  | .sum pieces => (pieces.map Piece.length).sum
  | .sequence items => lastLength items

def lastLength : List Duration → ℚ
  | [] => 0
  | [d] => d.length
  | _ :: d :: rest => lastLength (d :: rest)

end

mutual

/-- The sums that are computed for the length fit words. -/
def Fits : Duration → Prop
  | .piece _ => True
  | .sum pieces => SumsFit 0 (pieces.map Piece.length)
  | .sequence items => LastFits items

def LastFits : List Duration → Prop
  | [] => True
  | [d] => d.Fits
  | _ :: d :: rest => LastFits (d :: rest)

end

mutual

def WordSized : Duration → Prop
  | .piece p => p.WordSized
  | .sum pieces => ∀ p ∈ pieces, p.WordSized
  | .sequence items => AllWordSized items

def AllWordSized : List Duration → Prop
  | [] => True
  | d :: rest => d.WordSized ∧ AllWordSized rest

end

end Duration

namespace Checked

def multiple (n : Nat) (unit : String) : Option Value :=
  match noteValue? unit with
  | some a => do return ⟨← mul a (.ofInt n), true⟩
  | none => some .unknown

def piece : Piece → Option Value
  | .blank => some .unknown
  | .name n => some (.ofOption (noteValue? n))
  | .product multiplier base => multiple multiplier base
  | .count number unit => multiple number.value unit

/-- The sum from left to right. -/
def total (terms : List Beats) : Option Beats := terms.foldlM add Beats.zero

def sum (values : List Value) : Option Value := do
  return ⟨← total (values.map Value.beats), values.all Value.recognized⟩

mutual

def value : Duration → Option Value
  | .piece p => piece p
  | .sum pieces => do sum (← pieces.mapM piece)
  | .sequence items => lastValue items

def lastValue : List Duration → Option Value
  | [] => some .unknown
  | [d] => value d
  | _ :: d :: rest => lastValue (d :: rest)

end

/-! ## What is not stopped is what is computed -/

theorem foldl_add_of_checked {terms : List Beats} {a r : Beats} (h : terms.foldlM add a = some r) :
    terms.foldl (· + ·) a = r := by
  induction terms generalizing a with
  | nil => exact Option.some.inj h
  | cons b terms ih =>
    rw [List.foldlM_cons, Option.bind_eq_bind, Option.bind_eq_some_iff] at h
    obtain ⟨s, hs, h⟩ := h
    rw [List.foldl_cons, add_eq_of_checked hs]
    exact ih h

theorem foldl_value_add (values : List Value) (a : Value) :
    values.foldl Value.add a =
      ⟨(values.map Value.beats).foldl (· + ·) a.beats,
        a.recognized && values.all Value.recognized⟩ := by
  induction values generalizing a with
  | nil => simp
  | cons v values ih =>
    rw [List.foldl_cons, ih]
    simp [Value.add, Bool.and_assoc]

theorem sum_eq_of_checked {values : List Value} {v : Value} (h : sum values = some v) :
    Value.sum values = v := by
  simp only [sum, Option.bind_eq_bind, Option.bind_eq_some_iff] at h
  obtain ⟨t, ht, h⟩ := h
  rw [Value.sum, foldl_value_add, foldl_add_of_checked ht]
  simpa using h

theorem multiple_eq_of_checked {n : Nat} {unit : String} {v : Value}
    (h : multiple n unit = some v) : .ofOption (multiple? n unit) = v := by
  unfold multiple at h
  unfold multiple?
  split at h
  · rename_i a ha
    rw [Option.bind_eq_bind, Option.bind_eq_some_iff] at h
    obtain ⟨b, hb, h⟩ := h
    rw [ha, Option.map_some, mul_eq_of_checked hb]
    exact Option.some.inj h
  · rename_i ha
    rw [ha, Option.map_none]
    exact Option.some.inj h

theorem piece_eq_of_checked {p : Piece} {v : Value} (h : piece p = some v) : p.value = v := by
  cases p with
  | blank => exact Option.some.inj h
  | name => exact Option.some.inj h
  | product =>
    rw [piece] at h
    rw [Piece.value]
    exact multiple_eq_of_checked h
  | count =>
    rw [piece] at h
    rw [Piece.value]
    exact multiple_eq_of_checked h

theorem map_of_mapM {α β : Type} {f : α → Option β} {g : α → β}
    (hg : ∀ a b, f a = some b → g a = b) {as : List α} {bs : List β}
    (h : as.mapM f = some bs) : as.map g = bs := by
  induction as generalizing bs with
  | nil =>
    rw [List.mapM_nil] at h
    exact Option.some.inj h
  | cons a as ih =>
    simp only [List.mapM_cons, Option.bind_eq_bind, Option.bind_eq_some_iff] at h
    obtain ⟨b, hb, rest, hrest, h⟩ := h
    rw [List.map_cons, hg a b hb, ih hrest]
    exact Option.some.inj h

mutual

theorem value_eq_of_checked : ∀ {d : Duration} {v : Value}, value d = some v → d.value = v
  | .piece _, _, h => by
    rw [value] at h
    exact piece_eq_of_checked h
  | .sum pieces, _, h => by
    rw [value, Option.bind_eq_bind, Option.bind_eq_some_iff] at h
    obtain ⟨values, hvalues, h⟩ := h
    rw [Duration.value, map_of_mapM (fun _ _ => piece_eq_of_checked) hvalues]
    exact sum_eq_of_checked h
  | .sequence _, _, h => by
    rw [value] at h
    exact lastValue_eq_of_checked h

theorem lastValue_eq_of_checked :
    ∀ {ds : List Duration} {v : Value}, lastValue ds = some v → Duration.lastValue ds = v
  | [], _, h => by
    rw [lastValue] at h
    exact Option.some.inj h
  | [_], _, h => by
    rw [lastValue] at h
    exact value_eq_of_checked h
  | _ :: _ :: _, _, h => by
    rw [lastValue] at h
    rw [Duration.lastValue]
    exact lastValue_eq_of_checked h

end

end Checked

/-! ## Exact lengths -/

/-- A length in sixteenths of a beat. -/
structure OnGrid (q : ℚ) : Prop where
  nonneg : 0 ≤ q
  den_dvd : q.den ∣ 16

namespace OnGrid

variable {x y : ℚ}

theorem zero : OnGrid 0 := ⟨le_refl 0, by decide⟩

theorem add (hx : OnGrid x) (hy : OnGrid y) : OnGrid (x + y) :=
  ⟨add_nonneg hx.nonneg hy.nonneg,
    (Rat.add_den_dvd_lcm x y).trans (Nat.lcm_dvd hx.den_dvd hy.den_dvd)⟩

theorem mul_natCast (hx : OnGrid x) (n : Nat) : OnGrid (x * n) := by
  refine ⟨mul_nonneg hx.nonneg n.cast_nonneg, (Rat.mul_den_dvd x n).trans ?_⟩
  rw [Rat.den_natCast, mul_one]
  exact hx.den_dvd

theorem den_le (hx : OnGrid x) : x.den ≤ 16 := Nat.le_of_dvd (by decide) hx.den_dvd

theorem den_mul_den_lt (hx : OnGrid x) (hy : OnGrid y) : x.den * y.den < 2 ^ 63 :=
  lt_of_le_of_lt (Nat.mul_le_mul hx.den_le hy.den_le) (by decide)

theorem sum {xs : List ℚ} (h : ∀ x ∈ xs, OnGrid x) : OnGrid xs.sum := by
  induction xs with
  | nil => exact zero
  | cons x xs ih =>
    rw [List.sum_cons]
    exact (h x List.mem_cons_self).add (ih fun y hy => h y (List.mem_cons_of_mem x hy))

end OnGrid

/-- Every length in the table is on the grid and in lowest terms. -/
theorem noteValues_onGrid : ∀ e ∈ noteValues, 0 ≤ e.2.numer ∧ e.2.numer ≤ 6 ∧
    0 < e.2.denom ∧ e.2.denom ∣ 16 ∧ e.2.numer.natAbs.Coprime e.2.denom.natAbs := by
  decide +kernel

theorem noteValue?_onGrid {unit : String} {a : Beats} (h : noteValue? unit = some a) :
    a = ofRat (lengthOf unit) ∧ OnGrid (lengthOf unit) ∧ (lengthOf unit).num ≤ 6 := by
  obtain ⟨h0, h6, hden, hdvd, hcop⟩ := noteValues_onGrid _ (Table.mem_of_lookup h)
  have hlength : lengthOf unit = a.numer / a.denom := by
    rw [lengthOf, h]
    rfl
  have hnum : (lengthOf unit).num = a.numer := by
    rw [hlength, Rat.num_div_eq_of_coprime hden hcop]
  have hden' : ((lengthOf unit).den : Int) = a.denom := by
    rw [hlength, Rat.den_div_eq_of_coprime hden hcop]
  refine ⟨?_, ⟨Rat.num_nonneg.1 (hnum ▸ h0), ?_⟩, hnum ▸ h6⟩
  · rw [ofRat, hnum, hden']
  · rw [← hden'] at hdvd
    exact_mod_cast hdvd

theorem lengthOf_of_none {unit : String} (h : noteValue? unit = none) : lengthOf unit = 0 := by
  rw [lengthOf, h]
  rfl

theorem lengthOf_onGrid (unit : String) : OnGrid (lengthOf unit) := by
  cases h : noteValue? unit with
  | none => exact lengthOf_of_none h ▸ OnGrid.zero
  | some => exact (noteValue?_onGrid h).2.1

theorem Piece.length_onGrid (p : Piece) : OnGrid p.length := by
  cases p with
  | blank => exact .zero
  | name n => exact lengthOf_onGrid n
  | product multiplier base =>
    rw [Piece.length, mul_comm]
    exact (lengthOf_onGrid base).mul_natCast multiplier
  | count number unit =>
    rw [Piece.length, mul_comm]
    exact (lengthOf_onGrid unit).mul_natCast number.value

namespace Duration

mutual

theorem length_onGrid : ∀ d : Duration, OnGrid d.length
  | .piece p => by
    rw [length]
    exact p.length_onGrid
  | .sum pieces => by
    rw [length]
    apply OnGrid.sum
    intro x hx
    obtain ⟨p, _, rfl⟩ := List.mem_map.1 hx
    exact p.length_onGrid
  | .sequence items => by
    rw [length]
    exact lastLength_onGrid items

theorem lastLength_onGrid : ∀ ds : List Duration, OnGrid (lastLength ds)
  | [] => by
    rw [lastLength]
    exact .zero
  | [d] => by
    rw [lastLength]
    exact d.length_onGrid
  | _ :: d :: rest => by
    rw [lastLength]
    exact lastLength_onGrid (d :: rest)

end

end Duration

namespace Checked

/-- Induction on the terms: each sum is exact while it fits, and the first that does not stops. -/
theorem foldlM_add_eq_some_iff {x : ℚ} {xs : List ℚ} {r : Beats} (hx : OnGrid x)
    (hxs : ∀ y ∈ xs, OnGrid y) :
    (xs.map ofRat).foldlM add (ofRat x) = some r ↔ SumsFit x xs ∧ r = ofRat (x + xs.sum) := by
  induction xs generalizing x with
  | nil =>
    rw [List.map_nil, List.foldlM_nil, List.sum_nil, add_zero, SumsFit, true_and]
    exact ⟨fun h => (Option.some.inj h).symm, fun h => h ▸ rfl⟩
  | cons y ys ih =>
    have hy := hxs y List.mem_cons_self
    have hys := fun z hz => hxs z (List.mem_cons_of_mem y hz)
    simp only [List.map_cons, List.foldlM_cons, Option.bind_eq_bind, Option.bind_eq_some_iff,
      add_ofRat_iff hx.nonneg hy.nonneg (hx.den_mul_den_lt hy), SumsFit, List.sum_cons,
      ← add_assoc]
    constructor
    · rintro ⟨_, ⟨hfit, rfl⟩, h⟩
      obtain ⟨hrest, rfl⟩ := (ih (hx.add hy) hys).1 h
      exact ⟨⟨hfit, hrest⟩, rfl⟩
    · rintro ⟨⟨hfit, hrest⟩, rfl⟩
      exact ⟨_, ⟨hfit, rfl⟩, (ih (hx.add hy) hys).2 ⟨hrest, rfl⟩⟩

theorem total_eq_some_iff {xs : List ℚ} {r : Beats} (hxs : ∀ y ∈ xs, OnGrid y) :
    total (xs.map ofRat) = some r ↔ SumsFit 0 xs ∧ r = ofRat xs.sum := by
  rw [total, Beats.zero_eq_ofRat, foldlM_add_eq_some_iff .zero hxs, zero_add]

theorem multiple_eq {n : Nat} (hn : n < 2 ^ 32) (unit : String) :
    multiple n unit =
      some ⟨ofRat (n * lengthOf unit), (Value.ofOption (multiple? n unit)).recognized⟩ := by
  unfold multiple multiple?
  cases h : noteValue? unit with
  | none =>
    rw [lengthOf_of_none h, mul_zero]
    rfl
  | some a =>
    obtain ⟨ha, hgrid, h6⟩ := noteValue?_onGrid h
    have hint : Beats.ofInt n = ofRat n := by
      rw [Beats.ofInt, ofRat, Rat.num_natCast, Rat.den_natCast, Nat.cast_one]
    have hnum : 0 ≤ (lengthOf unit).num := Rat.num_nonneg.2 hgrid.nonneg
    have hprod : |(lengthOf unit).num * (n : ℚ).num| < 2 ^ 63 := by
      rw [Rat.num_natCast, abs_of_nonneg (mul_nonneg hnum n.cast_nonneg)]
      nlinarith
    have hmul : mul a (.ofInt n) = some (ofRat (n * lengthOf unit)) := by
      rw [hint, mul_comm (n : ℚ), ha]
      apply mul_ofRat hprod
      · rw [Rat.den_natCast, mul_one]
        exact lt_of_le_of_lt hgrid.den_le (by decide)
      · constructor <;> omega
      · rw [Rat.num_natCast]
        constructor <;> omega
    simp only [hmul]
    rfl

theorem piece_eq {p : Piece} (hp : p.WordSized) :
    piece p = some ⟨ofRat p.length, p.value.recognized⟩ := by
  cases p with
  | blank => rfl
  | name n =>
    rw [piece, Piece.length, Piece.value]
    cases h : noteValue? n with
    | none =>
      rw [lengthOf_of_none h]
      rfl
    | some a =>
      rw [← (noteValue?_onGrid h).1]
      rfl
  | product multiplier base =>
    rw [piece, Piece.length, Piece.value]
    exact multiple_eq hp base
  | count number unit =>
    have hlt : number.value < 2 ^ 32 := by cases number <;> decide
    rw [piece, Piece.length, Piece.value]
    exact multiple_eq hlt unit

theorem mapM_piece_eq {pieces : List Piece} (h : ∀ p ∈ pieces, p.WordSized) :
    pieces.mapM piece = some (pieces.map fun p => ⟨ofRat p.length, p.value.recognized⟩) := by
  refine (mapM_eq_some_iff (P := fun _ => True) ?_).2 ⟨fun _ _ => trivial, rfl⟩
  intro p hp v
  rw [piece_eq (h p hp), Option.some_inj, true_and]
  exact eq_comm

theorem sum_pieces_eq_some_iff {pieces : List Piece} {v : Value}
    (h : ∀ p ∈ pieces, p.WordSized) :
    (do sum (← pieces.mapM piece)) = some v ↔ SumsFit 0 (pieces.map Piece.length) ∧
      v = ⟨ofRat (pieces.map Piece.length).sum, pieces.all fun p => p.value.recognized⟩ := by
  have hgrid : ∀ x ∈ pieces.map Piece.length, OnGrid x := by
    intro x hx
    obtain ⟨p, _, rfl⟩ := List.mem_map.1 hx
    exact p.length_onGrid
  have hbeats : (pieces.map fun p => (⟨ofRat p.length, p.value.recognized⟩ : Value)).map
      Value.beats = (pieces.map Piece.length).map ofRat := by
    rw [List.map_map, List.map_map]
    rfl
  rw [mapM_piece_eq h, Option.bind_eq_bind, Option.bind_some]
  simp only [sum, hbeats, List.all_map, Function.comp_def, Option.bind_eq_bind,
    Option.bind_eq_some_iff, total_eq_some_iff hgrid]
  constructor
  · rintro ⟨_, ⟨hfit, rfl⟩, hv⟩
    exact ⟨hfit, (Option.some.inj hv).symm⟩
  · rintro ⟨hfit, rfl⟩
    exact ⟨_, ⟨hfit, rfl⟩, rfl⟩

theorem recognized_sum (values : List Value) :
    (Value.sum values).recognized = values.all Value.recognized := by
  rw [Value.sum, foldl_value_add]
  rfl

mutual

/-- The checked length is the exact one, and it is stopped if a partial sum does not fit. -/
theorem value_eq_some_iff : ∀ {d : Duration} {v : Value}, d.WordSized →
    (value d = some v ↔ d.Fits ∧ v = ⟨ofRat d.length, d.value.recognized⟩)
  | .piece p, v, hd => by
    rw [Duration.WordSized] at hd
    rw [value, Duration.Fits, Duration.length, Duration.value, piece_eq hd, Option.some_inj,
      true_and]
    exact eq_comm
  | .sum pieces, v, hd => by
    rw [Duration.WordSized] at hd
    rw [value, Duration.Fits, Duration.length, Duration.value, sum_pieces_eq_some_iff hd,
      recognized_sum, List.all_map]
    rfl
  | .sequence items, v, hd => by
    rw [Duration.WordSized] at hd
    rw [value, Duration.Fits, Duration.length, Duration.value]
    exact lastValue_eq_some_iff hd

theorem lastValue_eq_some_iff : ∀ {ds : List Duration} {v : Value}, Duration.AllWordSized ds →
    (lastValue ds = some v ↔ Duration.LastFits ds ∧
      v = ⟨ofRat (Duration.lastLength ds), (Duration.lastValue ds).recognized⟩)
  | [], v, _ => by
    rw [lastValue, Duration.LastFits, Duration.lastLength, Duration.lastValue, Option.some_inj,
      true_and]
    exact eq_comm
  | [d], v, hd => by
    rw [Duration.AllWordSized] at hd
    rw [lastValue, Duration.LastFits, Duration.lastLength, Duration.lastValue]
    exact value_eq_some_iff hd.1
  | _ :: d :: rest, v, hd => by
    rw [Duration.AllWordSized] at hd
    rw [lastValue, Duration.LastFits, Duration.lastLength, Duration.lastValue]
    exact lastValue_eq_some_iff hd.2

end

end Checked

end MeterCheck
