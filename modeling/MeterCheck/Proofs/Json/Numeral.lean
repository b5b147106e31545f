import MeterCheck.Json.Parser
import MeterCheck.Proofs.Text.Numeral
import Mathlib.Tactic.Positivity
import Mathlib.Tactic.SplitIfs

/-!
# Numbers are read from their written form

* `Numeral.written`, `ofChars?_written`: the parts of a number are found again in its characters;
* `absorb_spec`: the digits that are taken stand for no more than all digits do;
* `ofWord?_ofInt`: an integer within range is read as itself.
-/

namespace MeterCheck.Json

open Text (IsDigit number numberChars)

namespace Numeral

variable {c : Char} {cs ds fs rest : List Char} {s : Nat}

/-- The values of digits. -/
def values (ds : List Char) : List Nat := ds.map fun c => c.toNat - '0'.toNat

theorem isDigit_iff : isDigit c = true ↔ IsDigit c := by
  unfold isDigit Text.digit? IsDigit
  split <;> simp_all

/-! ## The grammar -/

theorem filterMap_digit? (h : ∀ c ∈ ds, IsDigit c) : ds.filterMap Text.digit? = values ds := by
  induction ds with
  | nil => rfl
  | cons c ds ih =>
    obtain ⟨hc, hds⟩ := List.forall_mem_cons.1 h
    have hvalue : Text.digit? c = some (c.toNat - '0'.toNat) := if_pos hc
    rw [List.filterMap_cons_some hvalue, ih hds]
    rfl

theorem digits?_append (hne : ds ≠ []) (h : ∀ c ∈ ds, IsDigit c)
    (hrest : ∀ c ∈ rest.head?, ¬ IsDigit c) : digits? (ds ++ rest) = some (values ds, rest) := by
  have hall : ∀ c ∈ ds, isDigit c = true := fun c hc => isDigit_iff.2 (h c hc)
  have htake : rest.takeWhile isDigit = [] ∧ rest.dropWhile isDigit = rest := by
    cases rest with
    | nil => exact ⟨rfl, rfl⟩
    | cons c rest =>
      have hc : ¬ isDigit c = true := fun hc => hrest c rfl (isDigit_iff.1 hc)
      exact ⟨List.takeWhile_cons_of_neg hc, List.dropWhile_cons_of_neg hc⟩
  unfold digits?
  rw [List.takeWhile_append_of_pos hall, List.dropWhile_append_of_pos hall, htake.1, htake.2,
    List.append_nil, ← filterMap_digit? h]
  cases ds with
  | nil => exact absurd rfl hne
  | cons c ds => rfl

/-- The point and the digits after it, if there are any. -/
def fractionChars (fs : List Char) : List Char := if fs = [] then [] else '.' :: fs

def exponentChars : Option Int → List Char
  | none => []
  | some k => 'e' :: (if k < 0 then '-' else '+') :: Nat.toDigits 10 k.natAbs

theorem exponent?_chars (k : Option Int) : exponent? (exponentChars k) = some k := by
  cases k with
  | none => rfl
  | some k =>
    have hk :
        Text.integer? ((if k < 0 then '-' else '+') :: Nat.toDigits 10 k.natAbs) = some k := by
      split
      · simp only [Text.integer?, Text.natural?_toDigits, Option.map_some, Int.ofNat_eq_natCast]
        congr 1
        omega
      · simp only [Text.integer?, Text.natural?_toDigits, Option.map_some, Int.ofNat_eq_natCast]
        congr 1
        omega
    simp [exponentChars, exponent?, hk]

/-- A sign, digits, perhaps a fraction and perhaps an exponent. -/
def written (negative : Bool) (ds fs : List Char) (k : Option Int) : List Char :=
  (if negative then ['-'] else []) ++ (ds ++ (fractionChars fs ++ exponentChars k))

theorem head_exponentChars (k : Option Int) : ∀ c ∈ (exponentChars k).head?, c = 'e' := by
  cases k <;> simp [exponentChars]

theorem head_fraction (fs : List Char) (k : Option Int) :
    ∀ c ∈ (fractionChars fs ++ exponentChars k).head?, ¬ IsDigit c := by
  have hpoint : ¬ IsDigit '.' := by
    unfold IsDigit
    decide
  have he : ¬ IsDigit 'e' := by
    unfold IsDigit
    decide
  unfold fractionChars
  split
  · intro c hc
    exact head_exponentChars k c hc ▸ he
  · rintro _ ⟨⟩
    exact hpoint

/-- What is read after the sign. -/
def ofUnsigned? (negative : Bool) (cs : List Char) : Option Numeral := do
  let (whole, cs) ← digits? cs
  if whole.head? = some 0 ∧ whole ≠ [0] then none
  else
    let (fraction, cs) ← match cs with
      | '.' :: rest => digits? rest
      | _ => some ([], cs)
    let exponent ← exponent? cs
    return { negative, whole, fraction, exponent }

theorem ofChars?_minus (cs : List Char) : ofChars? ('-' :: cs) = ofUnsigned? true cs := rfl

theorem ofChars?_of_ne (h : c ≠ '-') (cs : List Char) :
    ofChars? (c :: cs) = ofUnsigned? false (c :: cs) := by
  unfold ofChars?
  split
  rename_i negative cs' hsplit
  have hsign : (false, c :: cs) = (negative, cs') := by
    rw [← hsplit]
    split
    · rename_i hcs
      exact absurd (List.cons.inj hcs).1 h
    · rfl
  cases hsign
  rfl

theorem ofUnsigned?_written (negative : Bool) (hne : ds ≠ []) (hds : ∀ c ∈ ds, IsDigit c)
    (hlead : ds.head? = some '0' → ds = ['0']) (hfs : ∀ c ∈ fs, IsDigit c) (k : Option Int) :
    ofUnsigned? negative (ds ++ (fractionChars fs ++ exponentChars k)) =
      some ⟨negative, values ds, values fs, k⟩ := by
  have hzero : ¬ ((values ds).head? = some 0 ∧ values ds ≠ [0]) := by
    rintro ⟨hhead, hvalues⟩
    obtain ⟨d, ds, rfl⟩ := List.exists_cons_of_ne_nil hne
    have hlow : 48 ≤ d.toNat := (hds d List.mem_cons_self).1
    have hvalue : d.toNat - 48 = 0 := Option.some.inj hhead
    have hd : d = '0' := Char.toNat_inj.1 (Nat.le_antisymm (Nat.le_of_sub_eq_zero hvalue) hlow)
    subst hd
    cases hlead rfl
    exact hvalues rfl
  have hend : ∀ c ∈ (exponentChars k).head?, ¬ IsDigit c := by
    simpa [fractionChars] using head_fraction [] k
  rw [ofUnsigned?, digits?_append hne hds (head_fraction fs k)]
  simp only [Option.bind_eq_bind, Option.bind_some, if_neg hzero]
  by_cases hnil : fs = []
  · subst hnil
    cases k with
    | none => rfl
    | some k =>
      have hexponent := exponent?_chars (some k)
      simp only [fractionChars, ↓reduceIte, List.nil_append, exponentChars] at hexponent ⊢
      rw [hexponent]
      rfl
  · have hpoint : fractionChars fs = '.' :: fs := if_neg hnil
    simp only [hpoint, List.cons_append, digits?_append hnil hfs hend, Option.bind_some,
      exponent?_chars]
    rfl

theorem ofChars?_written (negative : Bool) (hne : ds ≠ []) (hds : ∀ c ∈ ds, IsDigit c)
    (hlead : ds.head? = some '0' → ds = ['0']) (hfs : ∀ c ∈ fs, IsDigit c) (k : Option Int) :
    ofChars? (written negative ds fs k) = some ⟨negative, values ds, values fs, k⟩ := by
  have hunsigned := ofUnsigned?_written negative hne hds hlead hfs k
  cases negative with
  | true => exact (ofChars?_minus _).trans hunsigned
  | false =>
    obtain ⟨d, ds, rfl⟩ := List.exists_cons_of_ne_nil hne
    have hd : d ≠ '-' := by
      rintro rfl
      exact absurd (hds '-' List.mem_cons_self) (by unfold IsDigit; decide)
    exact (ofChars?_of_ne hd _).trans hunsigned

/-! ## The value -/

/-- The number after more digits. -/
def extend (s : Nat) (ds : List Nat) : Nat := ds.foldl (fun n d => 10 * n + d) s

theorem le_extend (s : Nat) (ds : List Nat) : s * 10 ^ ds.length ≤ extend s ds := by
  induction ds generalizing s with
  | nil => simp [extend]
  | cons d ds ih =>
    refine le_trans ?_ (ih (10 * s + d))
    rw [List.length_cons, pow_succ, mul_comm _ 10, ← mul_assoc, mul_comm s 10]
    exact Nat.mul_le_mul_right _ (Nat.le_add_right _ _)

theorem absorb_of_lt {ds : List Nat} (h : extend s ds < 2 ^ 64) :
    absorb s ds = (extend s ds, []) := by
  induction ds generalizing s with
  | nil => rfl
  | cons d ds ih =>
    have hnext : 10 * s + d < 0x10000000000000000 :=
      lt_of_le_of_lt (le_trans (Nat.le_mul_of_pos_right _ (by positivity))
        (le_extend (10 * s + d) ds)) h
    rw [absorb, if_pos hnext, ih h]
    rfl

theorem absorb_lt (hs : s < 2 ^ 64) (ds : List Nat) : (absorb s ds).1 < 2 ^ 64 := by
  induction ds generalizing s with
  | nil => exact hs
  | cons d ds ih =>
    rw [absorb]
    split_ifs with hnext
    · exact ih hnext
    · exact hs

/-- The digits taken stand for no more than all of them do. -/
theorem absorb_spec {ds : List Nat} (hds : ∀ d ∈ ds, d < 10) (s : Nat) :
    let (taken, left) := absorb s ds
    left.length ≤ ds.length ∧ taken * 10 ^ left.length ≤ extend s ds ∧
      taken + 1 ≤ (s + 1) * 10 ^ (ds.length - left.length) := by
  induction ds generalizing s with
  | nil => simp [absorb, extend]
  | cons d ds ih =>
    obtain ⟨hd, hds⟩ := List.forall_mem_cons.1 hds
    rw [absorb]
    split_ifs with hnext
    · obtain ⟨hlength, hle, hhigh⟩ := ih hds (10 * s + d)
      refine ⟨Nat.le_succ_of_le hlength, hle, hhigh.trans ?_⟩
      rw [List.length_cons, Nat.succ_sub hlength, pow_succ', ← mul_assoc]
      exact Nat.mul_le_mul_right _ (by omega)
    · exact ⟨le_rfl, le_extend s (d :: ds), by simp⟩

theorem extend_values (ds : List Char) : extend 0 (values ds) = number ds := rfl

/-- Digits alone are an integer as long as it fits. -/
theorem toJson_integer (negative : Bool) (h : number ds < 2 ^ 64) :
    toJson ⟨negative, values ds, [], none⟩ =
      if ¬ negative then .int (number ds)
      else if number ds = 0 ∨ 0x8000000000000000 < number ds then
        .double (Binary64.ofNat (number ds)).neg
      else .int (-number ds) := by
  simp [toJson, absorb_of_lt (extend_values ds ▸ h), extend_values]

end Numeral

/-- What is written like a number is no literal. -/
theorem ofWord?_of_numberChars {cs : List Char} (h : ∀ c ∈ cs, c ∈ numberChars) :
    ofWord? cs = (Numeral.ofChars? cs).map Numeral.toJson := by
  have hne {literal : List Char} (hliteral : ¬ literal.all (fun c => c ∈ numberChars) = true) :
      cs ≠ literal := by
    rintro rfl
    exact hliteral (List.all_eq_true.2 fun c hc => decide_eq_true (h c hc))
  rw [ofWord?, if_neg (hne (by decide)), if_neg (hne (by decide)), if_neg (hne (by decide))]

/-- **An integer is read as it was written.** -/
theorem ofWord?_ofInt {n : Int} (hlow : -2 ^ 63 ≤ n) (hhigh : n < 2 ^ 64) :
    ofWord? (Text.ofInt n).toList = some (.int n) := by
  have hwritten : (Text.ofInt n).toList =
      Numeral.written (decide (n < 0)) (Nat.toDigits 10 n.natAbs) [] none := by
    rw [Text.toList_ofInt]
    by_cases hn : n < 0 <;> simp [Numeral.written, Numeral.fractionChars, Numeral.exponentChars, hn]
  have hnumber := Text.number_toDigits n.natAbs
  rw [ofWord?_of_numberChars fun c hc => Text.mem_numberChars_of_mem_ofInt hc, hwritten,
    Numeral.ofChars?_written _ Nat.toDigits_ne_nil (fun c => Text.isDigit_of_mem_toDigits)
      Text.head_toDigits (by simp), Option.map_some]
  have hfits : number (Nat.toDigits 10 n.natAbs) < 2 ^ 64 := by omega
  have hvalue := Numeral.toJson_integer (decide (n < 0)) hfits
  rw [hnumber] at hvalue
  congr 1
  refine hvalue.trans ?_
  by_cases hn : n < 0
  · have hrange : ¬ (n.natAbs = 0 ∨ 0x8000000000000000 < n.natAbs) := by omega
    simp only [hn, hrange, decide_true, not_true_eq_false, ↓reduceIte]
    congr 1
    omega
  · simp only [hn, decide_false, Bool.false_eq_true, not_false_eq_true, ↓reduceIte]
    congr 1
    omega

end MeterCheck.Json
