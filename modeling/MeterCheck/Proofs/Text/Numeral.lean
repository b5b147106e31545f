import MeterCheck.Text.Numeral
import Mathlib.Algebra.Group.Nat.Defs
import Mathlib.Data.List.Basic

/-!
# What is read as a number

* `natural?_eq_some_iff`: any digits are a number, and nothing else is;
* `unsigned32?_eq_some_iff`: a plus sign may stand before them, and the number has to fit;
* `Spells`, `signed64?_eq_some_iff`: so may either sign before the digits of an integer;
* `toList_ofInt`, `spells_ofInt`: the written form of an integer.
-/

namespace MeterCheck

theorem mapM_eq_some_iff {α β : Type} {f : α → Option β} {P : α → Prop} {g : α → β}
    {as : List α} {bs : List β} (h : ∀ a ∈ as, ∀ b, f a = some b ↔ P a ∧ b = g a) :
    as.mapM f = some bs ↔ (∀ a ∈ as, P a) ∧ bs = as.map g := by
  induction as generalizing bs with
  | nil =>
    rw [List.mapM_nil, List.map_nil]
    exact ⟨fun h => ⟨by simp, (Option.some.inj h).symm⟩, fun h => h.2 ▸ rfl⟩
  | cons a as ih =>
    have ha := h a List.mem_cons_self
    have has (bs : List β) : as.mapM f = some bs ↔ (∀ a ∈ as, P a) ∧ bs = as.map g :=
      ih fun a' ha' => h a' (List.mem_cons_of_mem a ha')
    simp only [List.mapM_cons, Option.bind_eq_bind, Option.bind_eq_some_iff, ha, has,
      List.forall_mem_cons, List.map_cons]
    constructor
    · rintro ⟨_, ⟨hP, rfl⟩, _, ⟨hPs, rfl⟩, hbs⟩
      exact ⟨⟨hP, hPs⟩, (Option.some.inj hbs).symm⟩
    · rintro ⟨⟨hP, hPs⟩, rfl⟩
      exact ⟨_, ⟨hP, rfl⟩, _, ⟨hPs, rfl⟩, rfl⟩

namespace Text

def IsDigit (c : Char) : Prop := '0' ≤ c ∧ c ≤ '9'

/-- The number that ASCII digits stand for, the most significant first. -/
def number (ds : List Char) : Nat := ofDigits (ds.map fun c => c.toNat - '0'.toNat)

variable {cs : List Char} {n : Nat}

theorem natural?_eq_some_iff :
    natural? cs = some n ↔ cs ≠ [] ∧ (∀ c ∈ cs, IsDigit c) ∧ n = number cs := by
  have hdigit : ∀ c ∈ cs, ∀ d, digit? c = some d ↔ IsDigit c ∧ d = c.toNat - '0'.toNat := by
    intro c _ d
    unfold digit? IsDigit
    split
    · rename_i h
      simp [h, eq_comm]
    · rename_i h
      simp only [h, false_and, reduceCtorEq]
  unfold natural?
  split
  · simp_all
  · rename_i hne
    simp only [Option.map_eq_some_iff, mapM_eq_some_iff hdigit]
    constructor
    · rintro ⟨_, ⟨hall, rfl⟩, rfl⟩
      exact ⟨by simpa using hne, hall, rfl⟩
    · rintro ⟨_, hall, rfl⟩
      exact ⟨_, ⟨hall, rfl⟩, rfl⟩

/-- A plus sign is no digit, so that at most one is dropped. -/
theorem unsigned32?_eq_some_iff :
    unsigned32? cs = some n ↔ n < 2 ^ 32 ∧ ∃ ds, (cs = ds ∨ cs = '+' :: ds) ∧
      ds ≠ [] ∧ (∀ c ∈ ds, IsDigit c) ∧ n = number ds := by
  have hplus : ¬ IsDigit '+' := by
    unfold IsDigit
    decide
  simp only [unsigned32?, Option.filter_eq_some_iff, decide_eq_true_eq, natural?_eq_some_iff]
  rw [and_comm]
  apply and_congr_right
  intro _
  split
  · rename_i rest
    constructor
    · intro h
      exact ⟨rest, .inr rfl, h⟩
    · rintro ⟨ds, rfl | hds, hne, hall, hn⟩
      · exact absurd (hall '+' List.mem_cons_self) hplus
      · cases hds
        exact ⟨hne, hall, hn⟩
  · rename_i hsign
    constructor
    · intro h
      exact ⟨cs, .inl rfl, h⟩
    · rintro ⟨ds, rfl | hds, h⟩
      · exact h
      · exact absurd hds (hsign ds)

/-- One or more ASCII digits for an integer, after a sign or none. -/
inductive Spells : List Char → Int → Prop where
  | bare {ds : List Char} (nonempty : ds ≠ []) (digits : ∀ c ∈ ds, IsDigit c) :
      Spells ds (number ds)
  | plus {ds : List Char} (nonempty : ds ≠ []) (digits : ∀ c ∈ ds, IsDigit c) :
      Spells ('+' :: ds) (number ds)
  | minus {ds : List Char} (nonempty : ds ≠ []) (digits : ∀ c ∈ ds, IsDigit c) :
      Spells ('-' :: ds) (-number ds)

theorem integer?_eq_some_iff {n : Int} : integer? cs = some n ↔ Spells cs n := by
  constructor
  · intro h
    unfold integer? at h
    split at h <;> obtain ⟨k, hk, rfl⟩ := Option.map_eq_some_iff.1 h <;>
      obtain ⟨hne, hdigits, rfl⟩ := natural?_eq_some_iff.1 hk
    · exact .plus hne hdigits
    · exact .minus hne hdigits
    · exact .bare hne hdigits
  · intro h
    cases h with
    | bare hne hdigits =>
      have hvalue := natural?_eq_some_iff.2 ⟨hne, hdigits, rfl⟩
      unfold integer?
      split
      · exact absurd (hdigits '+' List.mem_cons_self) (by unfold IsDigit; decide)
      · exact absurd (hdigits '-' List.mem_cons_self) (by unfold IsDigit; decide)
      · rw [hvalue]
        rfl
    | plus hne hdigits =>
      rw [integer?, natural?_eq_some_iff.2 ⟨hne, hdigits, rfl⟩]
      rfl
    | minus hne hdigits =>
      rw [integer?, natural?_eq_some_iff.2 ⟨hne, hdigits, rfl⟩]
      rfl

theorem signed64?_eq_some_iff {n : Int} :
    signed64? cs = some n ↔ Spells cs n ∧ isSigned64 n = true := by
  rw [signed64?, Option.filter_eq_some_iff, integer?_eq_some_iff]

theorem unsigned32?_lt (h : unsigned32? cs = some n) : n < 2 ^ 32 :=
  (unsigned32?_eq_some_iff.1 h).1

theorem IsDigit.mem_digits {c : Char} (h : IsDigit c) : c ∈ "0123456789".toList := by
  have hdigits : ∀ n < 10, Char.ofNat (48 + n) ∈ "0123456789".toList := by decide
  have hlow : 48 ≤ c.toNat := h.1
  have hhigh : c.toNat ≤ 57 := h.2
  have hc : Char.ofNat (48 + (c.toNat - 48)) = c := by
    rw [Nat.add_sub_cancel' hlow, Char.ofNat_toNat]
  exact hc ▸ hdigits (c.toNat - 48) (by omega)

theorem isDigit_of_mem_toDigits {c : Char} (h : c ∈ Nat.toDigits 10 n) : IsDigit c := by
  have hc := Nat.isDigit_of_mem_toDigits (by decide) (by decide) h
  obtain ⟨hlow, hhigh⟩ := Char.isDigit_iff_toNat.1 hc
  exact ⟨hlow, hhigh⟩

theorem number_toDigits (n : Nat) : number (Nat.toDigits 10 n) = n := by
  rw [number, ofDigits, List.foldl_map, ← Nat.ofDigitChars_eq_foldl, Nat.ofDigitChars_ten_toDigits]

theorem natural?_toDigits (n : Nat) : natural? (Nat.toDigits 10 n) = some n :=
  natural?_eq_some_iff.2
    ⟨Nat.toDigits_ne_nil, fun _ => isDigit_of_mem_toDigits, (number_toDigits n).symm⟩

/-- Digits do not begin with a zero that could be left out. -/
theorem head_toDigits (h : (Nat.toDigits 10 n).head? = some '0') :
    Nat.toDigits 10 n = ['0'] := by
  induction n using Nat.strongRecOn with
  | ind n ih =>
    rcases Nat.lt_or_ge n 10 with hlt | hge
    · rw [Nat.toDigits_of_lt_base hlt] at h ⊢
      rw [Option.some.inj h]
    · rw [Nat.toDigits_of_base_le (by decide) hge] at h
      rw [List.head?_append_of_ne_nil _ Nat.toDigits_ne_nil] at h
      have hzero := ih (n / 10) (by omega) h
      have hnumber := number_toDigits (n / 10)
      rw [hzero] at hnumber
      have hdiv : 0 = n / 10 := hnumber
      omega

/-- A number is read from its digits. -/
theorem unsigned32?_toDigits (h : n < 2 ^ 32) : unsigned32? (Nat.toDigits 10 n) = some n :=
  unsigned32?_eq_some_iff.2 ⟨h, _, .inl rfl, Nat.toDigits_ne_nil,
    fun _ => isDigit_of_mem_toDigits, (number_toDigits n).symm⟩

/-! ## Written numbers -/

/-- What numbers are written with. -/
def numberChars : List Char := "0123456789+-.e".toList

theorem IsDigit.mem_numberChars {c : Char} (h : IsDigit c) : c ∈ numberChars :=
  List.mem_append_left "+-.e".toList h.mem_digits

theorem toList_ofInt (n : Int) :
    (ofInt n).toList = (if n < 0 then ['-'] else []) ++ Nat.toDigits 10 n.natAbs := by
  cases n with
  | ofNat n => simp [ofInt, Nat.toList_repr]
  | negSucc n => simp [ofInt, Nat.toList_repr, Int.negSucc_lt_zero]

theorem spells_ofInt (n : Int) : Spells (ofInt n).toList n := by
  have hdigits : ∀ c ∈ Nat.toDigits 10 n.natAbs, IsDigit c := fun _ => isDigit_of_mem_toDigits
  rw [toList_ofInt]
  by_cases hneg : n < 0
  · have hspells := Spells.minus Nat.toDigits_ne_nil hdigits
    rw [number_toDigits, Int.ofNat_natAbs_of_nonpos (Int.le_of_lt hneg), Int.neg_neg] at hspells
    rwa [if_pos hneg]
  · have hspells := Spells.bare Nat.toDigits_ne_nil hdigits
    rw [number_toDigits, Int.natAbs_of_nonneg (Int.not_lt.1 hneg)] at hspells
    rwa [if_neg hneg]

theorem ofInt_ne_nil (n : Int) : (ofInt n).toList ≠ [] := by
  simp [toList_ofInt, Nat.toDigits_ne_nil]

theorem mem_numberChars_of_mem_ofInt {n : Int} {c : Char} (h : c ∈ (ofInt n).toList) :
    c ∈ numberChars := by
  rw [toList_ofInt] at h
  rcases List.mem_append.1 h with h | h
  · split at h
    · rw [List.mem_singleton.1 h]
      decide
    · cases h
  · exact (isDigit_of_mem_toDigits h).mem_numberChars

end Text

end MeterCheck
