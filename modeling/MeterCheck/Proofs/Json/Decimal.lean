import MeterCheck.Proofs.Binary64.Shortest
import MeterCheck.Proofs.Binary64.Text
import MeterCheck.Proofs.Json.Numeral
import MeterCheck.Proofs.Json.Scaling

/-!
# The text of a double is read as a double

Reading multiplies a rounded number by a rounded power of ten, so it need not give the double back.
It never leaves the finite doubles, though, not even for the largest ones.

* `exists_toJson_of_point`: a number with a point and few whole digits;
* `exists_toJson_of_exponent`: a number in scientific notation;
* `exists_ofWord?_text`: the text of every finite double.
-/

namespace MeterCheck.Json

open Binary64 (overflow Proper)
open Text (IsDigit number numberChars)

namespace Numeral

variable {negative : Bool} {ds fs : List Nat} {k : Option Int} {s s' : Nat}
  {skipped unread : List Nat} {x : Binary64}

theorem exists_toJson (hwhole : absorb 0 ds = (s, skipped)) (hfraction : absorb s fs = (s', unread))
    (hform : ¬ (fs = [] ∧ k = none ∧ skipped = []))
    (hscaled : ∃ x, scaled? s' (skipped.length - (fs.length - unread.length : Nat) + k.getD 0) =
      some x) :
    ∃ y, toJson ⟨negative, ds, fs, k⟩ = .double y := by
  obtain ⟨x, hx⟩ := hscaled
  simp only [toJson, hwhole, hfraction, if_neg hform, hx]
  exact ⟨_, rfl⟩

/-- A fraction after few whole digits is worth less than its digits. -/
theorem exists_toJson_of_point (hds : extend 0 ds < 10 ^ 17) (hne : fs ≠ [])
    (hfs : ∀ d ∈ fs, d < 10) : ∃ y, toJson ⟨negative, ds, fs, none⟩ = .double y := by
  obtain ⟨d, fs, rfl⟩ := List.exists_cons_of_ne_nil hne
  obtain ⟨hd, hfs⟩ := List.forall_mem_cons.1 hfs
  have hfirst : 10 * extend 0 ds + d < 0x10000000000000000 := by omega
  have hlength := (absorb_spec hfs (10 * extend 0 ds + d)).1
  have habsorb : absorb (extend 0 ds) (d :: fs) = absorb (10 * extend 0 ds + d) fs := by
    rw [absorb, if_pos hfirst]
  refine exists_toJson (absorb_of_lt (by omega)) habsorb (by simp) (exists_scaled?_of_neg _ ?_)
  simp only [List.length_nil, List.length_cons, Option.getD_none]
  omega

/-- Two roundings upwards of what the digits taken stand for stay below the range of infinity. -/
theorem exists_toJson_of_exponent {d : Nat} {k : Int} (hd : d < 10)
    (hk : k ≤ maxPower)
    (hlt : ∀ p : Nat, (p : Int) = k - (fs.length - (absorb d fs).2.length : Nat) →
      ((absorb d fs).1 : ℚ) * 10 ^ p * (1 + 1 / 2 ^ 53) ^ 2 < overflow) :
    ∃ y, toJson ⟨negative, [d], fs, some k⟩ = .double y := by
  have hextend : extend 0 [d] = d := by simp [extend]
  have hfirst : absorb 0 [d] = (d, []) := by
    rw [absorb_of_lt (by omega), hextend]
  refine exists_toJson hfirst rfl (by simp) ?_
  simp only [List.length_nil, Option.getD_some]
  generalize hleft : (fs.length - (absorb d fs).2.length : Nat) = n at hlt ⊢
  rcases Int.lt_or_le ((0 : Nat) - (n : Int) + k) 0 with hneg | hnonneg
  · exact exists_scaled?_of_neg _ hneg
  · obtain ⟨p, hp⟩ := Int.eq_ofNat_of_zero_le hnonneg
    rw [hp]
    exact exists_scaled?_of_lt (by omega) (hlt p (by omega))

theorem lt_overflow_of_le_power {a : Nat} (h : a ≤ 10 ^ maxPower) :
    (a : ℚ) * (1 + 1 / 2 ^ 53) ^ 2 < overflow := by
  have hmax : 10 ^ maxPower * (2 ^ 53 + 1) ^ 2 < (2 ^ 54 - 1) * 2 ^ 970 * 2 ^ 106 := by
    decide +kernel
  have hlt : a * (2 ^ 53 + 1) ^ 2 < (2 ^ 54 - 1) * 2 ^ 970 * 2 ^ 106 :=
    lt_of_le_of_lt (Nat.mul_le_mul_right _ h) hmax
  have hcast : (a : ℚ) * (2 ^ 53 + 1) ^ 2 < overflow * 2 ^ 106 := by
    rw [Binary64.overflow_eq_natCast]
    exact_mod_cast hlt
  generalize overflow = o at *
  linarith

/-- Below the top decade it does not matter how many digits there are. -/
theorem taken_lt_overflow {d : Nat} {k : Int} (hd : d < 10) (hfs : ∀ d ∈ fs, d < 10)
    (hk : k < maxPower) {p : Nat}
    (hp : (p : Int) = k - (fs.length - (absorb d fs).2.length : Nat)) :
    ((absorb d fs).1 : ℚ) * 10 ^ p * (1 + 1 / 2 ^ 53) ^ 2 < overflow := by
  obtain ⟨-, -, hhigh⟩ := absorb_spec hfs d
  generalize (fs.length - (absorb d fs).2.length : Nat) = n at *
  have hpower : (absorb d fs).1 * 10 ^ p ≤ 10 ^ maxPower := by
    calc (absorb d fs).1 * 10 ^ p ≤ ((d + 1) * 10 ^ n) * 10 ^ p := Nat.mul_le_mul_right _ (by omega)
      _ ≤ (10 * 10 ^ n) * 10 ^ p := Nat.mul_le_mul_right _ (Nat.mul_le_mul_right _ (by omega))
      _ = 10 ^ (1 + n + p) := by rw [pow_add, pow_add, pow_one]
      _ ≤ 10 ^ maxPower := Nat.pow_le_pow_right (by decide) (by omega)
  exact_mod_cast lt_overflow_of_le_power hpower

end Numeral

/-! ## Texts of doubles -/

namespace Numeral

variable {ds fs : List Char} {c : Char} {n : Nat}

theorem value_lt_ten (h : IsDigit c) : c.toNat - 48 < 10 := by
  have hhigh : c.toNat ≤ 57 := h.2
  omega

theorem lt_ten_of_mem_values (h : ∀ c ∈ ds, IsDigit c) : ∀ d ∈ values ds, d < 10 := by
  intro d hd
  obtain ⟨c, hc, rfl⟩ := List.mem_map.1 hd
  exact value_lt_ten (h c hc)

theorem isDigit_zero : IsDigit '0' := by
  unfold IsDigit
  decide

theorem isDigit_of_mem_replicate {m : Nat} (h : c ∈ List.replicate m '0') : IsDigit c :=
  List.eq_of_mem_replicate h ▸ isDigit_zero

theorem ofWord?_of_body {x : Binary64} {k : Option Int}
    (hbody : x.body = ds ++ (fractionChars fs ++ exponentChars k)) (hne : ds ≠ [])
    (hds : ∀ c ∈ ds, IsDigit c) (hlead : ds.head? = some '0' → ds = ['0'])
    (hfs : ∀ c ∈ fs, IsDigit c) :
    ofWord? x.text = some (toJson ⟨x.negative, values ds, values fs, k⟩) := by
  have htext : x.text = written x.negative ds fs k := by
    rw [Binary64.text_eq, hbody, written]
  rw [ofWord?_of_numberChars fun c hc => x.mem_numberChars_of_mem_text hc, htext,
    ofChars?_written x.negative hne hds hlead hfs k, Option.map_some]

theorem extend_lt {s : Nat} {ds : List Nat} (h : ∀ d ∈ ds, d < 10) :
    extend s ds < (s + 1) * 10 ^ ds.length := by
  induction ds generalizing s with
  | nil => simp [extend]
  | cons d ds ih =>
    obtain ⟨hd, hds⟩ := List.forall_mem_cons.1 h
    have hnext : extend (10 * s + d) ds < (10 * s + d + 1) * 10 ^ ds.length := ih hds
    refine lt_of_lt_of_le hnext ?_
    rw [List.length_cons, pow_succ', ← mul_assoc]
    exact Nat.mul_le_mul_right _ (by omega)

/-- A point between at most 16 digits and some more. -/
theorem exists_ofWord?_of_point {x : Binary64}
    (hbody : x.body = ds ++ (fractionChars fs ++ exponentChars none)) (hds0 : ds ≠ [])
    (hds : ∀ c ∈ ds, IsDigit c) (hlead : ds.head? = some '0' → ds = ['0'])
    (hlength : ds.length ≤ 16) (hfs0 : fs ≠ []) (hfs : ∀ c ∈ fs, IsDigit c) :
    ∃ y, ofWord? x.text = some (.double y) := by
  have hlt : extend 0 (values ds) < 10 ^ 17 := by
    have hpower : 10 ^ (values ds).length ≤ 10 ^ 16 :=
      Nat.pow_le_pow_right (by decide) (by simpa [values] using hlength)
    have hextend : extend 0 (values ds) < (0 + 1) * 10 ^ (values ds).length :=
      extend_lt (lt_ten_of_mem_values hds)
    omega
  obtain ⟨y, hy⟩ : ∃ y, toJson ⟨x.negative, values ds, values fs, none⟩ = .double y :=
    exists_toJson_of_point hlt (by simpa [values] using hfs0) (lt_ten_of_mem_values hfs)
  exact ⟨y, by rw [ofWord?_of_body hbody hds0 hds hlead hfs, hy]⟩

theorem exists_ofWord?_of_positional {x : Binary64} {k : Int}
    (hbody : x.body = Binary64.positional (Nat.toDigits 10 n) k) (hk : k ≤ 15)
    (hpos : 1 ≤ k → 0 < n) : ∃ y, ofWord? x.text = some (.double y) := by
  have hdigits : ∀ c ∈ Nat.toDigits 10 n, IsDigit c := fun c => Text.isDigit_of_mem_toDigits
  have hne : Nat.toDigits 10 n ≠ [] := Nat.toDigits_ne_nil
  have hhead : (Nat.toDigits 10 n).head? = some '0' → n = 0 ∧ Nat.toDigits 10 n = ['0'] := by
    intro h
    refine ⟨?_, Text.head_toDigits h⟩
    rw [← Text.number_toDigits n, Text.head_toDigits h]
    rfl
  generalize Nat.toDigits 10 n = digits at *
  rw [Binary64.positional] at hbody
  split_ifs at hbody with hneg
  · have hnil : List.replicate (-k - 1).toNat '0' ++ digits ≠ [] := by simp [hne]
    have hform : x.body = ['0'] ++ (fractionChars (List.replicate (-k - 1).toNat '0' ++ digits) ++
        exponentChars none) := by
      rw [hbody, fractionChars, if_neg hnil]
      simp [exponentChars]
    refine exists_ofWord?_of_point hform (by simp) (by simp [isDigit_zero]) (by simp) (by simp)
      hnil ?_
    intro c hc
    exact (List.mem_append.1 hc).elim isDigit_of_mem_replicate (hdigits c)
  · generalize hwhole : k.toNat + 1 = whole at hbody
    dsimp only at hbody
    generalize hfs : (if (digits.drop whole).isEmpty = true then ['0'] else digits.drop whole) = fs
      at hbody
    have hnil : fs ≠ [] := by
      rw [← hfs]
      split
      · simp
      · rename_i hdrop
        exact fun hnil => hdrop (by simp [hnil])
    have hform : x.body = (digits.take whole ++ List.replicate (whole - digits.length) '0') ++
        (fractionChars fs ++ exponentChars none) := by
      rw [hbody, fractionChars, if_neg hnil]
      simp [exponentChars]
    refine exists_ofWord?_of_point hform ?_ ?_ ?_ ?_ hnil ?_
    · simp [hne]
      omega
    · intro c hc
      exact (List.mem_append.1 hc).elim (fun h => hdigits c (List.mem_of_mem_take h))
        isDigit_of_mem_replicate
    · intro h
      subst hwhole
      obtain ⟨d, rest, rfl⟩ := List.exists_cons_of_ne_nil hne
      obtain ⟨hzero, hdigits⟩ := hhead h
      have hk0 : k.toNat = 0 := by omega
      rw [hdigits, hk0]
      rfl
    · simp only [List.length_append, List.length_take, List.length_replicate]
      omega
    · intro c hc
      rw [← hfs] at hc
      split at hc
      · exact List.mem_singleton.1 hc ▸ isDigit_zero
      · exact hdigits c (List.mem_of_mem_drop hc)

/-- The upper end of its cell, rounded upwards twice, is finite for all but the largest doubles. -/
theorem upper_lt_overflow {x : Binary64} (hx : x.Proper)
    (hlargest : x.mantissa + 3 ≤ 2 ^ 53 ∨ x.exponent ≤ 970) :
    (2 * x.mantissa + 1) * (2 : ℚ) ^ (x.exponent - 1) * (1 + 1 / 2 ^ 53) ^ 2 < overflow := by
  have hm : (x.mantissa : ℚ) + 1 ≤ 2 ^ 53 := by exact_mod_cast hx.mantissa_lt
  have hunit : (2 : ℚ) ^ (x.exponent - 1) ≤ 2 ^ (970 : ℤ) :=
    zpow_le_zpow_right₀ one_le_two hx.exponent_lt
  have hhalf : x.exponent ≤ 970 → (2 : ℚ) ^ (x.exponent - 1) ≤ 2 ^ (970 : ℤ) / 2 := by
    intro hle
    have hsplit : (2 : ℚ) ^ (969 : ℤ) = 2 ^ (970 : ℤ) / 2 := zpow_sub_one₀ two_ne_zero 970
    rw [← hsplit]
    exact zpow_le_zpow_right₀ one_le_two (by omega)
  have hpos : (0 : ℚ) < 2 ^ (970 : ℤ) := by positivity
  have hpos' : (0 : ℚ) < 2 ^ (x.exponent - 1) := by positivity
  rw [overflow]
  generalize (2 : ℚ) ^ (970 : ℤ) = p at *
  generalize (2 : ℚ) ^ (x.exponent - 1) = u at *
  rcases hlargest with hlow | hlow
  · have hlow' : (x.mantissa : ℚ) + 3 ≤ 2 ^ 53 := by exact_mod_cast hlow
    calc (2 * x.mantissa + 1) * u * (1 + 1 / 2 ^ 53) ^ 2
        ≤ (2 ^ 54 - 5) * p * (1 + 1 / 2 ^ 53) ^ 2 := by
          gcongr
          linarith
      _ < (2 ^ 54 - 1) * p := by linarith
  · have hle := hhalf hlow
    calc (2 * x.mantissa + 1) * u * (1 + 1 / 2 ^ 53) ^ 2
        ≤ (2 ^ 54 - 1) * (p / 2) * (1 + 1 / 2 ^ 53) ^ 2 := by
          gcongr
          linarith
      _ < (2 ^ 54 - 1) * p := by linarith

/-- In the top decade the digits taken stand for no more than the upper end of the cell. -/
theorem taken_lt_overflow_of_top {x : Binary64} (hx : x.Proper)
    (hlargest : x.mantissa + 3 ≤ 2 ^ 53 ∨ x.exponent ≤ 970)
    (h : Binary64.Decimal.Shortest ⟨n, maxPower⟩ x) {d : Char} {rest : List Char}
    (hdigits : Nat.toDigits 10 n = d :: rest) (hrest : ∀ c ∈ rest, IsDigit c)
    {p : Nat} (hp : (p : Int) =
      maxPower - (rest.length - (absorb (d.toNat - 48) (values rest)).2.length : Nat)) :
    ((absorb (d.toNat - 48) (values rest)).1 : ℚ) * 10 ^ p * (1 + 1 / 2 ^ 53) ^ 2 < overflow := by
  obtain ⟨places, hplaces, hlow, hhigh, hupper⟩ := h.top rfl
  have hlength : rest.length = places := by
    have hle := (Nat.length_toDigits_le_iff (by decide : 1 < 10) (Nat.succ_pos places)).2 hhigh
    rw [hdigits, List.length_cons] at hle
    refine le_antisymm (by omega) ?_
    by_contra hlt
    have hshort : (Nat.toDigits 10 n).length ≤ places := by
      rw [hdigits, List.length_cons]
      omega
    exact absurd ((Nat.length_toDigits_le_iff (by decide) (by omega)).1 hshort) (not_lt.2 hlow)
  obtain ⟨hleft, hle, -⟩ := absorb_spec (lt_ten_of_mem_values hrest) (d.toNat - 48)
  rw [values, List.length_map] at hleft
  have hn : extend (d.toNat - 48) (values rest) = n := by
    rw [← Text.number_toDigits n, hdigits]
    simp [number, Text.ofDigits, extend, values]
  rw [hn] at hle
  change (absorb (d.toNat - 48) (values rest)).2.length ≤ rest.length at hleft
  generalize (absorb (d.toNat - 48) (values rest)).1 = taken at *
  generalize (absorb (d.toNat - 48) (values rest)).2.length = left at *
  have hp308 : p = left + (308 - places) := by
    change (p : Int) = (308 : Nat) - _ at hp
    omega
  have htaken : (taken : ℚ) * 10 ^ p ≤ (2 * x.mantissa + 1) * 2 ^ (x.exponent - 1) := by
    calc (taken : ℚ) * 10 ^ p = (taken * 10 ^ left : Nat) * 10 ^ (308 - places) := by
          rw [hp308, pow_add, ← mul_assoc]
          push_cast
          rfl
      _ ≤ n * 10 ^ (308 - places) := by
          gcongr
      _ ≤ (2 * x.mantissa + 1) * 2 ^ (x.exponent - 1) := hupper
  refine lt_of_le_of_lt ?_ (upper_lt_overflow hx hlargest)
  gcongr

theorem scientific_cons (d : Char) (rest : List Char) (k : Int) :
    Binary64.scientific (d :: rest) k = [d] ++ (fractionChars rest ++ exponentChars (some k)) := by
  cases rest <;> simp [Binary64.scientific, fractionChars, exponentChars]

theorem exists_ofWord?_of_scientific {x : Binary64} {k : Int} (hx : x.Proper)
    (hlargest : x.mantissa + 3 ≤ 2 ^ 53 ∨ x.exponent ≤ 970)
    (hbody : x.body = Binary64.scientific (Nat.toDigits 10 n) k)
    (h : Binary64.Decimal.Shortest ⟨n, k⟩ x) : ∃ y, ofWord? x.text = some (.double y) := by
  have hall : ∀ c ∈ Nat.toDigits 10 n, IsDigit c := fun c => Text.isDigit_of_mem_toDigits
  obtain ⟨d, rest, hdigits⟩ := List.exists_cons_of_ne_nil (Nat.toDigits_ne_nil (b := 10) (n := n))
  rw [hdigits] at hbody hall
  obtain ⟨hd, hrest⟩ := List.forall_mem_cons.1 hall
  rw [scientific_cons] at hbody
  obtain ⟨y, hy⟩ : ∃ y, toJson ⟨x.negative, values [d], values rest, some k⟩ = .double y := by
    refine exists_toJson_of_exponent (value_lt_ten hd) h.exponent_le fun p hp => ?_
    rcases lt_or_eq_of_le h.exponent_le with hlt | heq
    · exact taken_lt_overflow (value_lt_ten hd) (lt_ten_of_mem_values hrest) hlt hp
    · change k = (maxPower : Nat) at heq
      subst heq
      rw [values, List.length_map] at hp
      exact taken_lt_overflow_of_top hx hlargest h hdigits hrest hp
  exact ⟨y, by rw [ofWord?_of_body hbody (by simp) (by simpa using hd) (by simp) hrest, hy]⟩

end Numeral

/-- The two largest doubles, one by one. -/
theorem exists_ofWord?_of_largest {x : Binary64}
    (h : x.mantissa = 2 ^ 53 - 2 ∨ x.mantissa = 2 ^ 53 - 1) (he : x.exponent = 971) :
    ∃ y, ofWord? x.text = some (.double y) := by
  have hall : ∀ negative, ∀ m ∈ [2 ^ 53 - 2, 2 ^ 53 - 1],
      (match ofWord? (Binary64.text ⟨negative, m, 971⟩) with
        | some (.double _) => true
        | _ => false) = true := by
    decide +kernel
  obtain ⟨negative, m, e⟩ := x
  have hm : m ∈ [2 ^ 53 - 2, 2 ^ 53 - 1] := by simpa using h
  have hdouble := hall negative m hm
  subst he
  split at hdouble
  · rename_i y hy
    exact ⟨y, hy⟩
  · cases hdouble

/-- **The text of a finite double is read as a double.** -/
theorem exists_ofWord?_text {x : Binary64} (hx : x.Proper) :
    ∃ y, ofWord? x.text = some (.double y) := by
  by_cases hlargest : x.mantissa + 3 ≤ 2 ^ 53 ∨ x.exponent ≤ 970
  · rcases Nat.eq_zero_or_pos x.mantissa with hzero | hpos
    · have hbody :
          x.body = ['0'] ++ (Numeral.fractionChars ['0'] ++ Numeral.exponentChars none) := by
        rw [Binary64.body, if_pos hzero]
        rfl
      exact Numeral.exists_ofWord?_of_point hbody (by simp) (by simp [Numeral.isDigit_zero])
        (by simp)
        (by simp) (by simp) (by simp [Numeral.isDigit_zero])
    · have hshortest := Binary64.shortest_spec hx hpos
      by_cases hpositional : Binary64.isPositional x.shortest.exponent = true
      · have hk : x.shortest.exponent ≤ 15 := by
          simp only [Binary64.isPositional, Bool.and_eq_true, decide_eq_true_eq] at hpositional
          exact hpositional.2
        have hbody : x.body =
            Binary64.positional (Nat.toDigits 10 x.shortest.digits) x.shortest.exponent := by
          rw [Binary64.body, if_neg hpos.ne', if_pos hpositional]
        exact Numeral.exists_ofWord?_of_positional hbody hk hshortest.digits_pos
      · have hbody : x.body =
            Binary64.scientific (Nat.toDigits 10 x.shortest.digits) x.shortest.exponent := by
          rw [Binary64.body, if_neg hpos.ne', if_neg hpositional]
        exact Numeral.exists_ofWord?_of_scientific hx hlargest hbody hshortest
  · obtain ⟨hm, he⟩ := not_or.1 hlargest
    have hlt := hx.mantissa_lt
    have hle : x.exponent ≤ 971 := hx.exponent_le
    exact exists_ofWord?_of_largest (by omega) (by omega)

end MeterCheck.Json
