import MeterCheck.Proofs.Beats.Rational

/-!
# Checked arithmetic on beats

The operations on beats once more, each stopped at the first integer that is no word and at a
division by zero. An operation that is not stopped gives what the wrapping one gives.

* `Checked.make`, `combine`, `mul`, `abs`: arithmetic;
* `Checked.cmp`: the order, found by comparing whole parts and then the reciprocals of what is
  left over, so that nothing is multiplied;
* `combine_of_checked`: a sum or a difference that is not stopped is exact;
* `add_ofRat_iff`, `sub_ofRat_iff`, `mul_ofRat`, `abs_ofRat_iff`: when an operation on numbers in
  lowest terms is stopped, and that its result is exact otherwise.
-/

namespace MeterCheck.Checked

open Beats (ofRat toRat)

theorem natAbs_fmod_lt {n d : Int} (hd : d ≠ 0) : (n.fmod d).natAbs < d.natAbs := by
  rcases lt_or_gt_of_ne hd with hneg | hpos
  · have h1 := Int.fmod_nonneg_of_pos (-n) (b := -d) (by omega)
    have h2 := Int.fmod_lt_of_pos (-n) (b := -d) (by omega)
    rw [Int.neg_fmod_neg] at h1 h2
    omega
  · have h1 := Int.fmod_nonneg_of_pos n hpos
    have h2 := Int.fmod_lt_of_pos n hpos
    omega

/-- The integer, if it is a word. -/
def word (n : Int) : Option Int := if Text.isSigned64 n then some n else none

/-- The quotient rounded towards zero. -/
def div (n d : Int) : Option Int := if d = 0 then none else word (n.tdiv d)

/-- The quotient rounded down. -/
def floorDiv (n d : Int) : Option Int := if d = 0 then none else word (n.fdiv d)

def make (n d : Int) : Option Beats :=
  if d = 0 then none
  else if n = 0 then some ⟨0, 1⟩
  else if n = d then some ⟨1, 1⟩
  else do
    let g : Int := n.gcd d
    let n ← div n g
    let d ← div d g
    if d < 0 then return ⟨← word (-n), ← word (-d)⟩ else return ⟨n, d⟩

def lcm (a b : Int) : Option Int := do
  let q ← div b (a.gcd b)
  let p ← word (a * q)
  word p.natAbs

def numerOver (a : Beats) (l : Int) : Option Int := do
  let q ← div l a.denom
  word (a.numer * q)

/-- The sum or the difference: `f` is applied to the numerators over a common denominator. -/
def combine (f : Int → Int → Int) (a b : Beats) : Option Beats :=
  if a.denom = b.denom then do make (← word (f a.numer b.numer)) b.denom
  else do
    let l ← lcm a.denom b.denom
    let m ← numerOver a l
    let n ← numerOver b l
    make (← word (f m n)) l

def add : Beats → Beats → Option Beats := combine (· + ·)

def sub : Beats → Beats → Option Beats := combine (· - ·)

def mul (a b : Beats) : Option Beats := do
  let g : Int := a.numer.gcd b.denom
  let h : Int := a.denom.gcd b.numer
  let n ← word ((← div a.numer g) * (← div b.numer h))
  let d ← word ((← div a.denom h) * (← div b.denom g))
  make n d

def abs (a : Beats) : Option Beats :=
  if a.isNegative then do return ⟨← word (-a.numer), a.denom⟩ else some a

/--
Equal denominators and equal numerators are compared as `Beats.cmp` compares them. Otherwise the
whole parts decide, and between equal ones the parts left over, by their reciprocals in reverse.
-/
def cmp (a b : Beats) : Option Ordering :=
  if a.denom = b.denom then
    some (if a.denom < 0 then compare b.numer a.numer else compare a.numer b.numer)
  else if a.numer = b.numer then
    some (if a.numer = 0 then .eq
      else if a.numer < 0 then compare a.denom b.denom
      else compare b.denom a.denom)
  else if _h : a.denom = 0 then none
  else do
    let p ← floorDiv a.numer a.denom
    let q ← floorDiv b.numer b.denom
    let r := a.numer.fmod a.denom
    let s := b.numer.fmod b.denom
    if p ≠ q then return compare p q
    else if r = 0 then return if s = 0 then .eq else .lt
    else if s = 0 then return .gt
    else return (← cmp ⟨a.denom, r⟩ ⟨b.denom, s⟩).swap
termination_by a.denom.natAbs
decreasing_by exact natAbs_fmod_lt _h

/-- At most. -/
def le (a b : Beats) : Option Bool := (cmp a b).map (· != .gt)

def min (a b : Beats) : Option Beats := do if ← le a b then return a else return b

theorem word_eq_some_iff {n m : Int} : word n = some m ↔ IsWord n ∧ n = m := by
  rw [← isSigned64_iff, word]
  by_cases hn : Text.isSigned64 n = true
  · rw [if_pos hn, Option.some_inj]
    exact (and_iff_right hn).symm
  · rw [if_neg hn]
    simp only [reduceCtorEq, false_iff]
    exact fun h => hn h.1

theorem word_of_isWord {n : Int} (h : IsWord n) : word n = some n :=
  word_eq_some_iff.2 ⟨h, rfl⟩

theorem div_eq_some_iff {n d q : Int} :
    div n d = some q ↔ d ≠ 0 ∧ IsWord (n.tdiv d) ∧ n.tdiv d = q := by
  unfold div
  split
  · simp_all
  · simp_all [word_eq_some_iff]

/-- Division by a positive number does not leave the words. -/
theorem isWord_tdiv {n d : Int} (hn : IsWord n) (hd : 0 < d) : IsWord (n.tdiv d) := by
  obtain ⟨_, _⟩ := hn
  rcases le_or_gt 0 n with h | h
  · rw [Int.tdiv_eq_ediv_of_nonneg h]
    have := Int.ediv_nonneg h hd.le
    have := Int.ediv_le_self d h
    constructor <;> omega
  · have hneg : n.tdiv d = -((-n) / d) := by
      rw [← Int.tdiv_eq_ediv_of_nonneg (by omega), Int.neg_tdiv, neg_neg]
    have := Int.ediv_nonneg (by omega : 0 ≤ -n) hd.le
    have := Int.ediv_le_self d (by omega : 0 ≤ -n)
    rw [hneg]
    constructor <;> omega

theorem div_of_pos {n d : Int} (hn : IsWord n) (hd : 0 < d) : div n d = some (n.tdiv d) :=
  div_eq_some_iff.2 ⟨hd.ne', isWord_tdiv hn hd, rfl⟩

/-! ## An operation that is not stopped gives what the wrapping one gives -/

theorem make_eq_of_checked {n d : Int} {r : Beats} (h : make n d = some r) :
    Beats.make n d = r := by
  unfold make at h
  split at h
  · cases h
  · unfold Beats.make
    split at h
    · simp_all
    · split at h
      · simp_all
      · simp only [Option.bind_eq_bind, Option.bind_eq_some_iff, div_eq_some_iff] at h
        obtain ⟨n', ⟨_, _, rfl⟩, d', ⟨_, _, rfl⟩, h⟩ := h
        split at h
        · simp only [Option.bind_eq_some_iff, word_eq_some_iff] at h
          obtain ⟨_, ⟨hn, rfl⟩, _, ⟨hd, rfl⟩, h⟩ := h
          rw [← word_eq hn, ← word_eq hd] at h
          simp_all
        · simp_all

theorem lcm_eq_of_checked {a b l : Int} (h : lcm a b = some l) : Beats.lcm a b = l := by
  simp only [lcm, Option.bind_eq_bind, Option.bind_eq_some_iff, div_eq_some_iff,
    word_eq_some_iff] at h
  obtain ⟨_, ⟨_, _, rfl⟩, _, ⟨hp, rfl⟩, hl, rfl⟩ := h
  rw [Beats.lcm, word_eq hp, word_eq hl]

theorem numerOver_eq_of_checked {a : Beats} {l n : Int} (h : numerOver a l = some n) :
    a.numerOver l = n := by
  simp only [numerOver, Option.bind_eq_bind, Option.bind_eq_some_iff, div_eq_some_iff,
    word_eq_some_iff] at h
  obtain ⟨_, ⟨_, _, rfl⟩, hn, rfl⟩ := h
  rw [Beats.numerOver, word_eq hn]

theorem combine_eq_of_checked {f : Int → Int → Int} {a b r : Beats} (h : combine f a b = some r) :
    (if a.denom = b.denom then Beats.make (MeterCheck.word (f a.numer b.numer)) b.denom
      else
        let l := Beats.lcm a.denom b.denom
        Beats.make (MeterCheck.word (f (a.numerOver l) (b.numerOver l))) l) = r := by
  unfold combine at h
  split at h
  · rename_i hd
    simp only [Option.bind_eq_bind, Option.bind_eq_some_iff, word_eq_some_iff] at h
    obtain ⟨_, ⟨hw, rfl⟩, h⟩ := h
    rw [if_pos hd, word_eq hw, make_eq_of_checked h]
  · rename_i hd
    simp only [Option.bind_eq_bind, Option.bind_eq_some_iff, word_eq_some_iff] at h
    obtain ⟨l, hl, m, hm, n, hn, _, ⟨hw, rfl⟩, h⟩ := h
    rw [if_neg hd]
    simp only [lcm_eq_of_checked hl, numerOver_eq_of_checked hm, numerOver_eq_of_checked hn,
      word_eq hw, make_eq_of_checked h]

theorem add_eq_of_checked {a b r : Beats} (h : add a b = some r) : a + b = r :=
  combine_eq_of_checked h

theorem sub_eq_of_checked {a b r : Beats} (h : sub a b = some r) : a - b = r :=
  combine_eq_of_checked h

theorem mul_eq_of_checked {a b r : Beats} (h : mul a b = some r) : a * b = r := by
  change Beats.mul a b = r
  simp only [mul, Option.bind_eq_bind, Option.bind_eq_some_iff, div_eq_some_iff,
    word_eq_some_iff] at h
  obtain ⟨_, ⟨_, _, rfl⟩, _, ⟨_, _, rfl⟩, _, ⟨hn, rfl⟩, _, ⟨_, _, rfl⟩, _, ⟨_, _, rfl⟩, _,
    ⟨hd, rfl⟩, h⟩ := h
  simp only [Beats.mul, word_eq hn, word_eq hd, make_eq_of_checked h]

theorem abs_eq_of_checked {a r : Beats} (h : abs a = some r) : a.abs = r := by
  unfold abs at h
  unfold Beats.abs
  split at h
  · rename_i hneg
    simp only [Option.bind_eq_bind, Option.bind_eq_some_iff, word_eq_some_iff] at h
    obtain ⟨_, ⟨hw, rfl⟩, h⟩ := h
    rw [if_pos hneg, word_eq hw]
    simpa using h
  · rename_i hneg
    rw [if_neg hneg]
    simpa using h

/-! ## Results are fractions -/

theorem make_denom_ne_zero {n d : Int} {r : Beats} (h : make n d = some r) : r.denom ≠ 0 := by
  unfold make at h
  split at h
  · cases h
  rename_i hd
  split at h
  · cases h
    decide
  split at h
  · cases h
    decide
  simp only [Option.bind_eq_bind, Option.bind_eq_some_iff, div_eq_some_iff] at h
  obtain ⟨_, _, _, ⟨hg, _, rfl⟩, h⟩ := h
  have hquot : d.tdiv (n.gcd d) ≠ 0 := by
    intro h0
    have hval := Int.tdiv_mul_cancel (Int.gcd_dvd_right n d)
    rw [h0, zero_mul] at hval
    exact hd hval.symm
  split at h
  · simp only [Option.bind_eq_some_iff, word_eq_some_iff] at h
    obtain ⟨_, _, _, ⟨_, rfl⟩, h⟩ := h
    cases h
    exact neg_ne_zero.2 hquot
  · cases h
    exact hquot

theorem combine_denom_ne_zero {f : Int → Int → Int} {a b r : Beats} (h : combine f a b = some r) :
    r.denom ≠ 0 := by
  unfold combine at h
  split at h
  · obtain ⟨_, _, h⟩ := Option.bind_eq_some_iff.1 h
    exact make_denom_ne_zero h
  · simp only [Option.bind_eq_bind, Option.bind_eq_some_iff] at h
    obtain ⟨_, _, _, _, _, _, _, _, h⟩ := h
    exact make_denom_ne_zero h

theorem abs_denom {a r : Beats} (h : abs a = some r) : r.denom = a.denom := by
  unfold abs at h
  split at h
  · obtain ⟨_, _, h⟩ := Option.bind_eq_some_iff.1 h
    cases h
    rfl
  · cases h
    rfl

/-! ## Exact results -/

theorem make_of_pos {n d : Int} (hn : IsWord n) (hdw : IsWord d) (hd : 0 < d) :
    make n d = some (ofRat (n / d)) := by
  have hg : 0 < (n.gcd d : Int) := by
    exact_mod_cast Int.gcd_pos_of_ne_zero_right n hd.ne'
  have hden : 0 < d.tdiv (n.gcd d) := by
    rw [← (Beats.num_den_of_gcd (n := n) hd).2]
    exact_mod_cast Rat.den_pos _
  rw [← Beats.make_eq_ofRat hd]
  unfold make Beats.make
  simp only [hd.ne', ↓reduceIte, div_of_pos hn hg, div_of_pos hdw hg, Option.bind_eq_bind,
    Option.bind_some, not_lt.2 hden.le]
  split
  · rfl
  · split <;> rfl

/-- A denominator divides the least common multiple, and the quotient is exact. -/
theorem numerOver_ofRat_iff {x : ℚ} {l : Nat} (hl : x.den ∣ l) (hl0 : 0 < l)
    (hlw : IsWord l) {n : Int} :
    numerOver (ofRat x) l = some n ↔ IsWord n ∧ (n : ℚ) = x * l := by
  obtain ⟨k, rfl⟩ := hl
  have hden : (x.den : Int) ≠ 0 := by exact_mod_cast x.den_nz
  have hq : ((x.den * k : Nat) : Int).tdiv x.den = k := by
    push_cast
    exact Int.mul_tdiv_cancel_left _ hden
  have hk : div ((x.den * k : Nat) : Int) x.den = some (k : Int) := by
    rw [div_of_pos hlw (by exact_mod_cast x.den_pos), hq]
  have hval : ((x.num * k : Int) : ℚ) = x * (x.den * k : Nat) := by
    push_cast
    rw [← mul_assoc, Rat.mul_den_eq_num]
  simp only [numerOver, Beats.denom_ofRat, Beats.numer_ofRat, hk, Option.bind_eq_bind,
    Option.bind_some, word_eq_some_iff, ← hval, Int.cast_inj]
  constructor
  · rintro ⟨hw, rfl⟩
    exact ⟨hw, rfl⟩
  · rintro ⟨hw, rfl⟩
    exact ⟨hw, rfl⟩

theorem lcm_of_words {a b : Nat} (ha : 0 < a) (hb : 0 < b) (h : a * b < 2 ^ 63) :
    lcm a b = some (a.lcm b : Int) := by
  have hg : (Int.gcd a b : Int) ≠ 0 := by
    exact_mod_cast (Nat.gcd_pos_of_pos_right a hb).ne'
  have hbw : IsWord (b : Int) := by
    have : b ≤ a * b := Nat.le_mul_of_pos_left b ha
    constructor <;> omega
  have hlw : IsWord (a.lcm b : Int) := by
    have : a.lcm b ≤ a * b := Nat.lcm_le_mul ha hb
    constructor <;> omega
  have hmul : (a : Int) * (b : Int).tdiv (Int.gcd a b) = (a.lcm b : Int) := by
    have hdiv : (b : Int).tdiv (Int.gcd a b) = ((b / a.gcd b : Nat) : Int) := by
      simp [Int.tdiv_eq_ediv_of_nonneg]
    rw [hdiv, Nat.lcm_eq_mul_div, Nat.mul_div_assoc a (Nat.gcd_dvd_right a b)]
    push_cast
    rfl
  have habs : ((a.lcm b : Int).natAbs : Int) = a.lcm b := by rw [Int.natAbs_natCast]
  simp only [lcm, Option.bind_eq_bind, Option.bind_eq_some_iff, div_eq_some_iff,
    word_eq_some_iff]
  exact ⟨_, ⟨hg, isWord_tdiv hbw (by omega), rfl⟩, a.lcm b, ⟨hmul ▸ hlw, hmul⟩, habs ▸ hlw, habs⟩

/-- What a sum or difference of integers says about rational numbers. -/
structure Combines (f : Int → Int → Int) (g : ℚ → ℚ → ℚ) : Prop where
  cast (m n : Int) : ((f m n : Int) : ℚ) = g m n
  scale (x y c : ℚ) : g (x * c) (y * c) = g x y * c

theorem combines_add : Combines (· + ·) (· + ·) :=
  ⟨fun _ _ => Int.cast_add _ _, fun _ _ _ => by ring⟩

theorem combines_sub : Combines (· - ·) (· - ·) :=
  ⟨fun _ _ => Int.cast_sub _ _, fun _ _ _ => by ring⟩

section
variable {f : Int → Int → Int} {g : ℚ → ℚ → ℚ} {x y : ℚ} {r : Beats}

/-- Over a common denominator the numerators are combined. -/
theorem Combines.div_eq (hf : Combines f g) {l m n : Int} (hl : l ≠ 0) (hm : (m : ℚ) = x * l)
    (hn : (n : ℚ) = y * l) : ((f m n : Int) : ℚ) / l = g x y := by
  have hlq : (l : ℚ) ≠ 0 := by exact_mod_cast hl
  rw [hf.cast, hm, hn, hf.scale, mul_div_cancel_right₀ _ hlq]

theorem combine_ofRat_iff_of_eq (hf : Combines f g) (hd : x.den = y.den) (hw : IsWord y.den) :
    combine f (ofRat x) (ofRat y) = some r ↔ IsWord (f x.num y.num) ∧ r = ofRat (g x y) := by
  have hden : (y.den : Int) ≠ 0 := by exact_mod_cast y.den_nz
  have hval : ((f x.num y.num : Int) : ℚ) / (y.den : Int) = g x y := by
    apply hf.div_eq hden
    · rw [Int.cast_natCast, ← hd, Rat.mul_den_eq_num]
    · rw [Int.cast_natCast, Rat.mul_den_eq_num]
  have hd' : (ofRat x).denom = (ofRat y).denom := congrArg Nat.cast hd
  rw [combine, if_pos hd']
  simp only [Option.bind_eq_bind, Option.bind_eq_some_iff,
    word_eq_some_iff, Beats.numer_ofRat, Beats.denom_ofRat]
  constructor
  · rintro ⟨_, ⟨hn, rfl⟩, h⟩
    rw [make_of_pos hn hw (by exact_mod_cast y.den_pos), hval, Option.some_inj] at h
    exact ⟨hn, h.symm⟩
  · rintro ⟨hn, rfl⟩
    refine ⟨_, ⟨hn, rfl⟩, ?_⟩
    rw [make_of_pos hn hw (by exact_mod_cast y.den_pos), hval]

theorem combine_ofRat_iff_of_ne (hf : Combines f g) (hd : x.den ≠ y.den)
    (hw : x.den * y.den < 2 ^ 63) :
    combine f (ofRat x) (ofRat y) = some r ↔
      ∃ m n : Int, IsWord m ∧ (m : ℚ) = x * x.den.lcm y.den ∧ IsWord n ∧
        (n : ℚ) = y * x.den.lcm y.den ∧ IsWord (f m n) ∧ r = ofRat (g x y) := by
  have hl0 : 0 < x.den.lcm y.den := Nat.lcm_pos x.den_pos y.den_pos
  have hlw : IsWord (x.den.lcm y.den : Int) := by
    have : x.den.lcm y.den ≤ x.den * y.den := Nat.lcm_le_mul x.den_pos y.den_pos
    constructor <;> omega
  have hval {m n : Int} (hm : (m : ℚ) = x * x.den.lcm y.den) (hn : (n : ℚ) = y * x.den.lcm y.den) :
      ((f m n : Int) : ℚ) / ((x.den.lcm y.den : Int)) = g x y :=
    hf.div_eq (by exact_mod_cast hl0.ne') (by exact_mod_cast hm) (by exact_mod_cast hn)
  have hd' : (ofRat x).denom ≠ (ofRat y).denom := fun h => hd (Int.natCast_inj.1 h)
  rw [combine, if_neg hd']
  simp only [Option.bind_eq_bind, Option.bind_eq_some_iff,
    Beats.denom_ofRat, lcm_of_words x.den_pos y.den_pos hw, Option.some_inj, exists_eq_left',
    numerOver_ofRat_iff (Nat.dvd_lcm_left _ _) hl0 hlw,
    numerOver_ofRat_iff (Nat.dvd_lcm_right _ _) hl0 hlw, word_eq_some_iff]
  constructor
  · rintro ⟨m, ⟨hmw, hm⟩, n, ⟨hnw, hn⟩, _, ⟨hfw, rfl⟩, h⟩
    rw [make_of_pos hfw hlw (by exact_mod_cast hl0), hval hm hn, Option.some_inj] at h
    exact ⟨m, n, hmw, hm, hnw, hn, hfw, h.symm⟩
  · rintro ⟨m, n, hmw, hm, hnw, hn, hfw, rfl⟩
    refine ⟨m, ⟨hmw, hm⟩, n, ⟨hnw, hn⟩, _, ⟨hfw, rfl⟩, ?_⟩
    rw [make_of_pos hfw hlw (by exact_mod_cast hl0), hval hm hn]

/-! ### Whatever the fractions are -/

theorem lcm_of_checked {a b l : Int} (ha : a ≠ 0) (hb : b ≠ 0) (h : lcm a b = some l) :
    0 < l ∧ a ∣ l ∧ b ∣ l := by
  simp only [lcm, Option.bind_eq_bind, Option.bind_eq_some_iff, div_eq_some_iff,
    word_eq_some_iff] at h
  obtain ⟨q, ⟨-, -, rfl⟩, _, ⟨-, rfl⟩, -, rfl⟩ := h
  have hq : (a.gcd b : Int) * b.tdiv (a.gcd b) = b := Int.mul_tdiv_cancel' (Int.gcd_dvd_right a b)
  have hq0 : b.tdiv (a.gcd b) ≠ 0 := by
    intro h0
    rw [h0, mul_zero] at hq
    exact hb hq.symm
  refine ⟨by exact_mod_cast Int.natAbs_pos.2 (mul_ne_zero ha hq0), ?_, ?_⟩
  · exact Int.dvd_natAbs.2 (dvd_mul_right a _)
  · apply Int.dvd_natAbs.2
    obtain ⟨k, hk⟩ := Int.gcd_dvd_left a b
    refine ⟨k, ?_⟩
    calc a * b.tdiv (a.gcd b) = (a.gcd b : Int) * k * b.tdiv (a.gcd b) := by rw [← hk]
      _ = (a.gcd b : Int) * b.tdiv (a.gcd b) * k := by ring
      _ = b * k := by rw [hq]

theorem numerOver_of_checked {a : Beats} {l n : Int} (ha : a.denom ≠ 0) (hl : a.denom ∣ l)
    (h : numerOver a l = some n) : (n : ℚ) = a.toRat * l := by
  have hdenom : (a.denom : ℚ) ≠ 0 := by exact_mod_cast ha
  obtain ⟨k, rfl⟩ := hl
  simp only [numerOver, Option.bind_eq_bind, Option.bind_eq_some_iff, div_eq_some_iff,
    word_eq_some_iff, Int.mul_tdiv_cancel_left _ ha] at h
  obtain ⟨_, ⟨-, -, rfl⟩, -, rfl⟩ := h
  rw [Beats.toRat]
  push_cast
  field_simp

/-- A sum or a difference that is not stopped is exact. -/
theorem combine_of_checked (hf : Combines f g) {a b : Beats} (ha : 0 < a.denom)
    (hb : 0 < b.denom) (h : combine f a b = some r) : r = ofRat (g a.toRat b.toRat) := by
  have hmade {l m n : Int} (hl : 0 < l) (hm : (m : ℚ) = a.toRat * l) (hn : (n : ℚ) = b.toRat * l)
      (hr : make (f m n) l = some r) : r = ofRat (g a.toRat b.toRat) := by
    rw [← make_eq_of_checked hr, Beats.make_eq_ofRat hl, hf.div_eq hl.ne' hm hn]
  have hnumer {c : Beats} (hc : 0 < c.denom) : (c.numer : ℚ) = c.toRat * c.denom := by
    have hdenom : (c.denom : ℚ) ≠ 0 := by exact_mod_cast hc.ne'
    rw [Beats.toRat, div_mul_cancel₀ _ hdenom]
  unfold combine at h
  split at h
  · rename_i hd
    simp only [Option.bind_eq_bind, Option.bind_eq_some_iff, word_eq_some_iff] at h
    obtain ⟨_, ⟨-, rfl⟩, hr⟩ := h
    exact hmade hb (hd ▸ hnumer ha) (hnumer hb) hr
  · simp only [Option.bind_eq_bind, Option.bind_eq_some_iff, word_eq_some_iff] at h
    obtain ⟨l, hl, m, hm, n, hn, _, ⟨-, rfl⟩, hr⟩ := h
    obtain ⟨hpos, hla, hlb⟩ := lcm_of_checked ha.ne' hb.ne' hl
    exact hmade hpos (numerOver_of_checked ha.ne' hla hm) (numerOver_of_checked hb.ne' hlb hn) hr

end

/-- A number that is not negative fits a word if it is less than `2 ^ 63`. -/
theorem isWord_iff_of_cast {n : Int} {q : ℚ} (h : (n : ℚ) = q) (hq : 0 ≤ q) :
    IsWord n ↔ q < 2 ^ 63 := by
  have hn : 0 ≤ n := by exact_mod_cast h ▸ hq
  rw [← h]
  constructor
  · rintro ⟨_, hlt⟩
    exact_mod_cast hlt
  · intro hlt
    exact ⟨by omega, by exact_mod_cast hlt⟩

theorem exists_cast_eq_mul {x : ℚ} {l : Nat} (h : x.den ∣ l) : ∃ n : Int, (n : ℚ) = x * l := by
  obtain ⟨k, rfl⟩ := h
  refine ⟨x.num * k, ?_⟩
  push_cast
  rw [← mul_assoc, Rat.mul_den_eq_num]

/-- The sum is exact if it fits a word over the common denominator, and stopped otherwise. -/
theorem add_ofRat_iff {x y : ℚ} {r : Beats} (hx : 0 ≤ x) (hy : 0 ≤ y)
    (hw : x.den * y.den < 2 ^ 63) :
    add (ofRat x) (ofRat y) = some r ↔
      (x + y) * x.den.lcm y.den < 2 ^ 63 ∧ r = ofRat (x + y) := by
  by_cases hd : x.den = y.den
  · have hyw : IsWord (y.den : Int) := by
      have : y.den ≤ x.den * y.den := Nat.le_mul_of_pos_left _ x.den_pos
      constructor <;> omega
    have hval : ((x.num + y.num : Int) : ℚ) = (x + y) * x.den.lcm y.den := by
      rw [hd, Nat.lcm_self, add_mul, Rat.mul_den_eq_num, ← hd, Rat.mul_den_eq_num]
      push_cast
      rfl
    rw [add, combine_ofRat_iff_of_eq combines_add hd hyw,
      isWord_iff_of_cast hval (by positivity)]
  · rw [add, combine_ofRat_iff_of_ne combines_add hd hw]
    constructor
    · rintro ⟨m, n, _, hm, _, hn, hmn, rfl⟩
      refine ⟨(isWord_iff_of_cast ?_ (by positivity)).1 hmn, rfl⟩
      push_cast
      rw [hm, hn, add_mul]
    · rintro ⟨hlt, rfl⟩
      obtain ⟨m, hm⟩ := exists_cast_eq_mul (Nat.dvd_lcm_left x.den y.den)
      obtain ⟨n, hn⟩ := exists_cast_eq_mul (Nat.dvd_lcm_right x.den y.den)
      have hx' : 0 ≤ x * x.den.lcm y.den := by positivity
      have hy' : 0 ≤ y * x.den.lcm y.den := by positivity
      have hmn : ((m + n : Int) : ℚ) = (x + y) * x.den.lcm y.den := by
        push_cast
        rw [hm, hn, add_mul]
      rw [add_mul] at hlt hmn
      exact ⟨m, n, (isWord_iff_of_cast hm hx').2 (by linarith), hm,
        (isWord_iff_of_cast hn hy').2 (by linarith), hn,
        (isWord_iff_of_cast hmn (by linarith)).2 hlt, rfl⟩

/-- The difference is exact if both numbers fit a word over the common denominator. -/
theorem sub_ofRat_iff {x y : ℚ} {r : Beats} (hx : 0 ≤ x) (hy : 0 ≤ y) (hxw : IsWord x.num)
    (hyw : IsWord y.num) (hw : x.den * y.den < 2 ^ 63) :
    sub (ofRat x) (ofRat y) = some r ↔
      x * x.den.lcm y.den < 2 ^ 63 ∧ y * x.den.lcm y.den < 2 ^ 63 ∧ r = ofRat (x - y) := by
  have hxn : 0 ≤ x.num := Rat.num_nonneg.2 hx
  have hyn : 0 ≤ y.num := Rat.num_nonneg.2 hy
  by_cases hd : x.den = y.den
  · have hdw : IsWord (y.den : Int) := by
      have : y.den ≤ x.den * y.den := Nat.le_mul_of_pos_left _ x.den_pos
      constructor <;> omega
    have hxl : (x.num : ℚ) = x * x.den.lcm y.den := by
      rw [← hd, Nat.lcm_self, Rat.mul_den_eq_num]
    have hyl : (y.num : ℚ) = y * x.den.lcm y.den := by
      rw [hd, Nat.lcm_self, Rat.mul_den_eq_num]
    rw [sub, combine_ofRat_iff_of_eq combines_sub hd hdw,
      ← isWord_iff_of_cast hxl (by positivity), ← isWord_iff_of_cast hyl (by positivity)]
    have hdiff : IsWord (x.num - y.num) := by
      obtain ⟨_, _⟩ := hxw
      obtain ⟨_, _⟩ := hyw
      constructor <;> omega
    constructor
    · rintro ⟨_, rfl⟩
      exact ⟨hxw, hyw, rfl⟩
    · rintro ⟨_, _, rfl⟩
      exact ⟨hdiff, rfl⟩
  · rw [sub, combine_ofRat_iff_of_ne combines_sub hd hw]
    constructor
    · rintro ⟨m, n, hmw, hm, hnw, hn, _, rfl⟩
      exact ⟨(isWord_iff_of_cast hm (by positivity)).1 hmw,
        (isWord_iff_of_cast hn (by positivity)).1 hnw, rfl⟩
    · rintro ⟨hxlt, hylt, rfl⟩
      obtain ⟨m, hm⟩ := exists_cast_eq_mul (Nat.dvd_lcm_left x.den y.den)
      obtain ⟨n, hn⟩ := exists_cast_eq_mul (Nat.dvd_lcm_right x.den y.den)
      have hmw := (isWord_iff_of_cast hm (by positivity)).2 hxlt
      have hnw := (isWord_iff_of_cast hn (by positivity)).2 hylt
      have hm0 : 0 ≤ m := by
        have : (0 : ℚ) ≤ m := hm ▸ by positivity
        exact_mod_cast this
      have hn0 : 0 ≤ n := by
        have : (0 : ℚ) ≤ n := hn ▸ by positivity
        exact_mod_cast this
      refine ⟨m, n, hmw, hm, hnw, hn, ?_, rfl⟩
      obtain ⟨_, _⟩ := hmw
      obtain ⟨_, _⟩ := hnw
      constructor <;> omega

theorem isWord_of_abs_lt {n : Int} (h : |n| < 2 ^ 63) : IsWord n := by
  have := abs_lt.1 h
  constructor <;> omega

/-- Cancelling common factors crosswise makes the parts of a product no larger. -/
theorem isWord_of_cancelled {p q g h a e : Int} (hgh : 1 ≤ g * h) (hp : p = g * a)
    (hq : q = h * e) (hlt : |p * q| < 2 ^ 63) : IsWord (a * e) := by
  refine isWord_of_abs_lt (lt_of_le_of_lt ?_ hlt)
  rw [hp, hq, mul_mul_mul_comm, abs_mul (g * h), abs_of_nonneg (by omega : 0 ≤ g * h)]
  exact le_mul_of_one_le_left (abs_nonneg _) hgh

theorem mul_of_cancelled {x y : ℚ} {g h a b c e : Int} (ha : x.num = g * a)
    (hb : (y.den : Int) = g * b) (hc : (x.den : Int) = h * c) (he : y.num = h * e) :
    ((a * e : Int) : ℚ) / (c * b : Int) = x * y := by
  have hgb : (g : ℚ) * b ≠ 0 := by
    rw [← Int.cast_mul, ← hb, Int.cast_natCast]
    exact_mod_cast y.den_ne_zero
  have hhc : (h : ℚ) * c ≠ 0 := by
    rw [← Int.cast_mul, ← hc, Int.cast_natCast]
    exact_mod_cast x.den_ne_zero
  have hxv : x = (g * a) / (h * c) := by
    rw [← Rat.num_div_den x, ha, ← Int.cast_natCast, hc]
    push_cast
    rfl
  have hyv : y = (h * e) / (g * b) := by
    rw [← Rat.num_div_den y, he, ← Int.cast_natCast, hb]
    push_cast
    rfl
  obtain ⟨hg0, hb0⟩ := mul_ne_zero_iff.1 hgb
  obtain ⟨hh0, hc0⟩ := mul_ne_zero_iff.1 hhc
  rw [hxv, hyv]
  push_cast
  field_simp

theorem mul_ofRat {x y : ℚ} (hn : |x.num * y.num| < 2 ^ 63) (hd : x.den * y.den < 2 ^ 63)
    (hx : IsWord x.num) (hy : IsWord y.num) :
    mul (ofRat x) (ofRat y) = some (ofRat (x * y)) := by
  have hxd : IsWord (x.den : Int) := by
    have : x.den ≤ x.den * y.den := Nat.le_mul_of_pos_right _ y.den_pos
    constructor <;> omega
  have hyd : IsWord (y.den : Int) := by
    have : y.den ≤ x.den * y.den := Nat.le_mul_of_pos_left _ x.den_pos
    constructor <;> omega
  have hxd0 : (0 : Int) < x.den := by exact_mod_cast x.den_pos
  have hyd0 : (0 : Int) < y.den := by exact_mod_cast y.den_pos
  have hg : (0 : Int) < x.num.gcd y.den := by
    exact_mod_cast Int.gcd_pos_of_ne_zero_right _ hyd0.ne'
  have hh : (0 : Int) < (x.den : Int).gcd y.num := by
    exact_mod_cast Int.gcd_pos_of_ne_zero_left _ hxd0.ne'
  obtain ⟨a, ha⟩ := Int.gcd_dvd_left x.num y.den
  obtain ⟨b, hb⟩ := Int.gcd_dvd_right x.num y.den
  obtain ⟨c, hc⟩ := Int.gcd_dvd_left (x.den : Int) y.num
  obtain ⟨e, he⟩ := Int.gcd_dvd_right (x.den : Int) y.num
  have hc0 : 0 < c := pos_of_mul_pos_right (hc ▸ hxd0) hh.le
  have hb0 : 0 < b := pos_of_mul_pos_right (hb ▸ hyd0) hg.le
  simp only [mul, Beats.numer_ofRat, Beats.denom_ofRat, div_of_pos hx hg, div_of_pos hy hh,
    div_of_pos hxd hh, div_of_pos hyd hg, Option.bind_eq_bind, Option.bind_some,
    Int.tdiv_eq_of_eq_mul_right hg.ne' ha, Int.tdiv_eq_of_eq_mul_right hg.ne' hb,
    Int.tdiv_eq_of_eq_mul_right hh.ne' hc, Int.tdiv_eq_of_eq_mul_right hh.ne' he]
  generalize (x.num.gcd y.den : Int) = g at *
  generalize ((x.den : Int).gcd y.num : Int) = h at *
  have hgh : 1 ≤ g * h := mul_pos hg hh
  have hhg : 1 ≤ h * g := mul_pos hh hg
  have hdlt : |(x.den : Int) * y.den| < 2 ^ 63 := by
    rw [abs_of_pos (mul_pos hxd0 hyd0)]
    exact_mod_cast hd
  have hnw : IsWord (a * e) := isWord_of_cancelled hgh ha he hn
  have hdw : IsWord (c * b) := isWord_of_cancelled hhg hc hb hdlt
  rw [word_of_isWord hnw, Option.bind_some, word_of_isWord hdw, Option.bind_some,
    make_of_pos hnw hdw (mul_pos hc0 hb0), mul_of_cancelled ha hb hc he]

/-- Only the size of the least word is stopped. -/
theorem abs_ofRat_iff {x : ℚ} {r : Beats} :
    abs (ofRat x) = some r ↔ (x < 0 → IsWord (-x.num)) ∧ r = ofRat |x| := by
  have hden : (0 : Int) < x.den := by exact_mod_cast x.den_pos
  by_cases hx : x < 0
  · have hnum : x.num < 0 := Rat.num_neg.2 hx
    have hneg : (ofRat x).isNegative = true := by
      simp [Beats.isNegative, hnum, x.den_pos]
    have habs : ofRat |x| = ⟨-x.num, x.den⟩ := by
      rw [abs_of_neg hx, ofRat, Rat.num_neg_eq_neg_num, Rat.den_neg_eq_den]
    rw [abs, if_pos hneg, habs, forall_prop_of_true hx]
    simp only [Beats.numer_ofRat, Beats.denom_ofRat, Option.bind_eq_bind, Option.bind_eq_some_iff,
      word_eq_some_iff]
    constructor
    · rintro ⟨_, ⟨hw, rfl⟩, hr⟩
      exact ⟨hw, (Option.some.inj hr).symm⟩
    · rintro ⟨hw, rfl⟩
      exact ⟨_, ⟨hw, rfl⟩, rfl⟩
  · have hnum : 0 ≤ x.num := Rat.num_nonneg.2 (not_lt.1 hx)
    have hneg : ¬ (ofRat x).isNegative = true := by
      simp [Beats.isNegative, not_lt.2 hnum, not_lt.2 hden.le]
    rw [abs, if_neg hneg, abs_of_nonneg (not_lt.1 hx), and_iff_right fun h => absurd h hx,
      Option.some_inj]
    exact eq_comm

theorem abs_ofRat {x : ℚ} (h : -(2 ^ 63) < x.num) : abs (ofRat x) = some (ofRat |x|) := by
  refine abs_ofRat_iff.2 ⟨fun hx => ?_, rfl⟩
  have hnum : x.num < 0 := Rat.num_neg.2 hx
  constructor <;> omega

end MeterCheck.Checked
