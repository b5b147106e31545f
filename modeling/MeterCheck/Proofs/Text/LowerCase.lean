import MeterCheck.Text.LowerCase
import MeterCheck.Proofs.Text.Blank

/-!
# Lower case as a normal form

* `lowerRanges_apart`: no lower-case form in the table has another one;
* `Stable`: the characters that lower case keeps;
* `trimmed_lower`, `tidy_lower`: blanks stay where they are.
-/

namespace MeterCheck.Text

/-! ## The table -/

namespace CaseRange

/-- The lower-case form of the first code point of the run. -/
def lowFirst (r : CaseRange) : Nat := (r.first + r.shift).toNat

def lowLast (r : CaseRange) : Nat := (r.last + r.shift).toNat

/--
The lower-case forms of `r` are no code points of `q`. They may lie between them, when both runs
go in steps of two.
-/
def apart (r q : CaseRange) : Bool :=
  r.lowLast.blt q.first || q.last.blt r.lowFirst
    || (q.step == 2 && (r.step == 2 || r.first == r.last) && (r.lowFirst + q.first) % 2 == 1)

/-- Neither the run nor its lower-case forms meet the interval. -/
def misses (r : CaseRange) (first last : Nat) : Bool :=
  (r.last.blt first || last.blt r.first) && (r.lowLast.blt first || last.blt r.lowFirst)

/-- The lower-case forms are scalar values. -/
structure Valid (r : CaseRange) : Prop where
  shifted : 0 ≤ r.first + r.shift
  bound : r.last + r.shift < 0x110000
  scalar : r.last + r.shift < 0xD800 ∨ 0xDFFF < r.first + r.shift

variable {r : CaseRange} {n : Nat} {c : Char}

theorem lower?_eq_some (hr : r.Valid) (h : r.lower? n = some c) :
    r.first ≤ n ∧ n ≤ r.last ∧ (n - r.first) % r.step = 0 ∧ (c.toNat : Int) = n + r.shift := by
  unfold lower? at h
  split at h
  · rename_i hn
    obtain ⟨hfirst, hlast, hstep⟩ := hn
    obtain ⟨hshifted, hbound, hscalar⟩ := hr
    cases h
    refine ⟨hfirst, hlast, hstep, ?_⟩
    have hvalid : (n + r.shift).toNat.isValidChar := by
      unfold Nat.isValidChar
      omega
    have hofNat : (Char.ofNat (n + r.shift).toNat).toNat = (n + r.shift).toNat := by
      rw [Char.ofNat, dif_pos hvalid]
      rfl
    omega
  · cases h

theorem apart_lower? {q : CaseRange} (hr : r.Valid) (h : r.lower? n = some c)
    (hapart : r.apart q = true) : q.lower? c.toNat = none := by
  obtain ⟨hfirst, hlast, hstep, hc⟩ := lower?_eq_some hr h
  obtain ⟨hshifted, -, -⟩ := hr
  simp only [apart, lowFirst, lowLast, Bool.or_eq_true, Bool.and_eq_true, Nat.blt_eq,
    beq_iff_eq] at hapart
  rw [lower?, if_neg ?_]
  rintro ⟨hq, hq', hqstep⟩
  rcases hapart with (hbelow | habove) | ⟨⟨hqtwo, htwo⟩, hodd⟩
  · omega
  · omega
  · rw [hqtwo] at hqstep
    rcases htwo with htwo | hsingle
    · rw [htwo] at hstep
      omega
    · omega

theorem misses_lower? {first last : Nat} (hr : r.Valid) (h : r.lower? n = some c)
    (hmiss : r.misses first last = true) :
    ¬ (first ≤ n ∧ n ≤ last) ∧ ¬ (first ≤ c.toNat ∧ c.toNat ≤ last) := by
  obtain ⟨hfirst, hlast, -, hc⟩ := lower?_eq_some hr h
  simp only [misses, lowFirst, lowLast, Bool.or_eq_true, Bool.and_eq_true, Nat.blt_eq] at hmiss
  obtain ⟨hshifted, -, -⟩ := hr
  omega

end CaseRange

/-- No two runs in the table are such that one leads into the other. -/
theorem lowerRanges_apart :
    (lowerRanges.all fun r => lowerRanges.all fun q => r.apart q) = true := by
  decide +kernel

theorem lowerRanges_valid : ∀ r ∈ lowerRanges, r.Valid := by
  have htable : ∀ r ∈ lowerRanges, 0 ≤ r.first + r.shift ∧ r.last + r.shift < 0x110000 ∧
      (r.last + r.shift < 0xD800 ∨ 0xDFFF < r.first + r.shift) := by
    decide +kernel
  intro r hr
  obtain ⟨hshifted, hbound, hscalar⟩ := htable r hr
  exact ⟨hshifted, hbound, hscalar⟩

/-- The runs of blanks. -/
def blankRanges : List (Nat × Nat) :=
  [(0x09, 0x0D), (0x20, 0x20), (0x85, 0x85), (0xA0, 0xA0), (0x1680, 0x1680), (0x2000, 0x200A),
   (0x2028, 0x2029), (0x202F, 0x202F), (0x205F, 0x205F), (0x3000, 0x3000)]

theorem exists_blankRange {c : Char} (h : isBlank c = true) :
    ∃ r ∈ blankRanges, r.1 ≤ c.toNat ∧ c.toNat ≤ r.2 := by
  simp only [isBlank, Bool.or_eq_true, Bool.and_eq_true, decide_eq_true_eq, beq_iff_eq] at h
  simp only [blankRanges, List.mem_cons, List.not_mem_nil, or_false, exists_eq_or_imp,
    exists_eq_left]
  omega

/-- The runs of blanks, and the one character whose lower case is two characters. -/
def keptRanges : List (Nat × Nat) :=
  [(0x09, 0x0D), (0x20, 0x20), (0x85, 0x85), (0xA0, 0xA0), (0x1680, 0x1680), (0x2000, 0x200A),
   (0x2028, 0x2029), (0x202F, 0x202F), (0x205F, 0x205F), (0x3000, 0x3000), (0x130, 0x130)]

theorem lowerRanges_miss_kept :
    (lowerRanges.all fun r => keptRanges.all fun k => r.misses k.1 k.2) = true := by
  decide +kernel

theorem kept_of_blank {c : Char} (h : isBlank c = true) :
    ∃ k ∈ keptRanges, k.1 ≤ c.toNat ∧ c.toNat ≤ k.2 := by
  have hkept : ∀ r ∈ blankRanges, r ∈ keptRanges := by decide
  obtain ⟨r, hr, hc⟩ := exists_blankRange h
  exact ⟨r, hkept r hr, hc⟩

/-- A character is kept, or its lower-case form stands in the table. -/
theorem lowerChar_cases (c : Char) :
    lowerChar c = c ∨ ∃ r ∈ lowerRanges, r.lower? c.toNat = some (lowerChar c) := by
  rw [lowerChar]
  cases h : lowerRanges.findSome? (·.lower? c.toNat) with
  | none => exact .inl rfl
  | some d => exact .inr (List.exists_of_findSome?_eq_some h)

theorem lowerChar_lowerChar (c : Char) : lowerChar (lowerChar c) = lowerChar c := by
  rcases lowerChar_cases c with h | ⟨r, hr, h⟩
  · rw [h, h]
  · have hnone : lowerRanges.findSome? (·.lower? (lowerChar c).toNat) = none := by
      rw [List.findSome?_eq_none_iff]
      intro q hq
      have hapart := List.all_eq_true.1 (List.all_eq_true.1 lowerRanges_apart r hr) q hq
      exact CaseRange.apart_lower? (lowerRanges_valid r hr) h hapart
    rw [lowerChar, hnone, Option.getD_none]

/-- No character of an interval that the table misses is changed, or changed into. -/
theorem lowerChar_of_misses {c : Char} {first last : Nat}
    (hmiss : (lowerRanges.all fun r => r.misses first last) = true)
    (h : (first ≤ c.toNat ∧ c.toNat ≤ last) ∨
      (first ≤ (lowerChar c).toNat ∧ (lowerChar c).toNat ≤ last)) : lowerChar c = c := by
  rcases lowerChar_cases c with hsame | ⟨r, hr, hlower⟩
  · exact hsame
  · have hr' := List.all_eq_true.1 hmiss r hr
    obtain ⟨hc, hd⟩ := CaseRange.misses_lower? (lowerRanges_valid r hr) hlower hr'
    rcases h with h | h
    · exact absurd h hc
    · exact absurd h hd

theorem lowerChar_kept {c : Char} {k : Nat × Nat} (hk : k ∈ keptRanges)
    (h : (k.1 ≤ c.toNat ∧ c.toNat ≤ k.2) ∨
      (k.1 ≤ (lowerChar c).toNat ∧ (lowerChar c).toNat ≤ k.2)) : lowerChar c = c := by
  refine lowerChar_of_misses (List.all_eq_true.2 ?_) h
  intro r hr
  exact List.all_eq_true.1 (List.all_eq_true.1 lowerRanges_miss_kept r hr) k hk

theorem lowerChar_of_blank {c : Char} (h : isBlank c = true) : lowerChar c = c := by
  obtain ⟨k, hk, hc⟩ := kept_of_blank h
  exact lowerChar_kept hk (.inl hc)

theorem lowerChar_not_blank {c : Char} (h : ¬ isBlank c = true) :
    ¬ isBlank (lowerChar c) = true := by
  intro hblank
  obtain ⟨k, hk, hc⟩ := kept_of_blank hblank
  exact h (lowerChar_kept hk (.inr hc) ▸ hblank)

/-! ## Characters of a text -/

/-- Kept by lower case, wherever it stands. -/
structure Stable (c : Char) : Prop where
  same : lowerChar c = c
  single : c ≠ 'İ'

theorem stable_lowerChar {c : Char} (h : c ≠ 'İ') : Stable (lowerChar c) := by
  refine ⟨lowerChar_lowerChar c, ?_⟩
  intro hdotted
  have hkept : (0x130, 0x130) ∈ keptRanges := by decide
  have hsame := lowerChar_kept (c := c) hkept (.inr (by rw [hdotted]; decide))
  exact h (hsame ▸ hdotted)

theorem Stable.ne_sigma {c : Char} (h : Stable c) : c ≠ 'Σ' := by
  rintro rfl
  have hsigma : lowerChar 'Σ' ≠ 'Σ' := by decide +kernel
  exact hsigma h.same

/-- The lower case of one character between its neighbours. -/
def lowerAt (before : List Char) (c : Char) (rest : List Char) : List Char :=
  if c = 'İ' then ['i', '\u0307']
  else if c = 'Σ' then [if endsWord before rest then 'ς' else 'σ']
  else [lowerChar c]

theorem lowerFrom_cons (before : List Char) (c : Char) (rest : List Char) :
    lowerFrom before (c :: rest) = lowerAt before c rest ++ lowerFrom (c :: before) rest := by
  unfold lowerAt
  split
  · rename_i h
    subst h
    rfl
  · split
    · rename_i h
      subst h
      rfl
    · rename_i hdotted hsigma
      rw [lowerFrom]
      · rfl
      · exact hdotted
      · exact hsigma

theorem lowerAt_ne_nil (before : List Char) (c : Char) (rest : List Char) :
    lowerAt before c rest ≠ [] := by
  unfold lowerAt
  split
  · simp
  · split <;> simp

/-- The lower-case forms that are not in the table. -/
def specialForms : List Char := ['i', '\u0307', 'ς', 'σ']

theorem specialForms_kept :
    (specialForms.all fun d => lowerChar d == d && d != 'İ' && !isBlank d) = true := by
  decide +kernel

theorem mem_lowerAt {before : List Char} {c : Char} {rest : List Char} {d : Char}
    (h : d ∈ lowerAt before c rest) :
    d ∈ specialForms ∨ (c ≠ 'İ' ∧ d = lowerChar c) := by
  unfold lowerAt at h
  unfold specialForms
  split at h
  · left
    simp only [List.mem_cons, List.not_mem_nil, or_false] at h ⊢
    rcases h with rfl | rfl <;> simp
  · rename_i hdotted
    split at h
    · left
      rw [List.mem_singleton] at h
      split at h <;> subst h <;> simp
    · exact .inr ⟨hdotted, List.mem_singleton.1 h⟩

theorem stable_of_mem_lowerAt {before : List Char} {c : Char} {rest : List Char} {d : Char}
    (h : d ∈ lowerAt before c rest) : Stable d := by
  rcases mem_lowerAt h with hd | ⟨hdotted, rfl⟩
  · have hkept := List.all_eq_true.1 specialForms_kept d hd
    simp only [Bool.and_eq_true, beq_iff_eq, bne_iff_ne] at hkept
    exact ⟨hkept.1.1, hkept.1.2⟩
  · exact stable_lowerChar hdotted

theorem lowerAt_of_stable (before : List Char) {c : Char} (h : Stable c) (rest : List Char) :
    lowerAt before c rest = [c] := by
  rw [lowerAt, if_neg h.single, if_neg h.ne_sigma, h.same]

theorem stable_of_blank {c : Char} (h : isBlank c = true) : Stable c := by
  refine ⟨lowerChar_of_blank h, ?_⟩
  rintro rfl
  exact absurd h (by decide)

theorem not_blank_of_mem_lowerAt {before : List Char} {c : Char} {rest : List Char} {d : Char}
    (hc : ¬ isBlank c = true) (h : d ∈ lowerAt before c rest) : ¬ isBlank d = true := by
  rcases mem_lowerAt h with hd | ⟨-, rfl⟩
  · have hkept := List.all_eq_true.1 specialForms_kept d hd
    simp only [Bool.and_eq_true, Bool.not_eq_true'] at hkept
    rw [hkept.2]
    exact Bool.false_ne_true
  · exact lowerChar_not_blank hc

/-! ## Texts -/

/-- What stands in the lower case of a text comes from one of its characters. -/
theorem exists_mem_lowerAt {before cs : List Char} {d : Char} (h : d ∈ lowerFrom before cs) :
    ∃ c ∈ cs, ∃ left right, d ∈ lowerAt left c right := by
  induction cs generalizing before with
  | nil => cases h
  | cons c cs ih =>
    rw [lowerFrom_cons, List.mem_append] at h
    rcases h with h | h
    · exact ⟨c, List.mem_cons_self, before, cs, h⟩
    · obtain ⟨a, ha, hd⟩ := ih h
      exact ⟨a, List.mem_cons_of_mem c ha, hd⟩

theorem stable_of_mem_lowerFrom {before cs : List Char} {d : Char}
    (h : d ∈ lowerFrom before cs) : Stable d := by
  obtain ⟨c, -, left, right, hd⟩ := exists_mem_lowerAt h
  exact stable_of_mem_lowerAt hd

theorem lowerFrom_of_stable {cs : List Char} (h : ∀ c ∈ cs, Stable c) (before : List Char) :
    lowerFrom before cs = cs := by
  induction cs generalizing before with
  | nil => rfl
  | cons c cs ih =>
    rw [lowerFrom_cons, lowerAt_of_stable before (h c List.mem_cons_self),
      ih fun d hd => h d (List.mem_cons_of_mem c hd)]
    rfl

theorem mem_lowerFrom_of_stable {before cs : List Char} {c : Char} (hc : Stable c)
    (h : c ∈ cs) : c ∈ lowerFrom before cs := by
  induction cs generalizing before with
  | nil => cases h
  | cons a cs ih =>
    rw [lowerFrom_cons, List.mem_append]
    rcases List.mem_cons.1 h with rfl | h
    · left
      rw [lowerAt_of_stable before hc]
      exact List.mem_cons_self
    · exact .inr (ih h)

theorem head_lowerFrom {cs : List Char} (h : ∀ c, cs.head? = some c → ¬ isBlank c = true)
    (before : List Char) :
    ∀ d, (lowerFrom before cs).head? = some d → ¬ isBlank d = true := by
  intro d hd
  cases cs with
  | nil => cases hd
  | cons c cs =>
    obtain ⟨a, as, has⟩ := List.exists_cons_of_ne_nil (lowerAt_ne_nil before c cs)
    rw [lowerFrom_cons, has] at hd
    cases hd
    exact not_blank_of_mem_lowerAt (h c rfl) (has ▸ List.mem_cons_self)

theorem last_lowerFrom {cs : List Char} (h : ∀ c, cs.getLast? = some c → ¬ isBlank c = true)
    (before : List Char) :
    ∀ d, (lowerFrom before cs).getLast? = some d → ¬ isBlank d = true := by
  intro d hd
  induction cs generalizing before with
  | nil => cases hd
  | cons c cs ih =>
    rw [lowerFrom_cons, List.getLast?_append] at hd
    cases cs with
    | nil => exact not_blank_of_mem_lowerAt (h c rfl) (List.mem_of_getLast? hd)
    | cons b cs =>
      cases hlast : (lowerFrom (c :: before) (b :: cs)).getLast? with
      | none =>
        rw [List.getLast?_eq_none_iff, lowerFrom_cons, List.append_eq_nil_iff] at hlast
        exact absurd hlast.1 (lowerAt_ne_nil _ b cs)
      | some e =>
        rw [hlast, Option.some_or] at hd
        rw [List.getLast?_cons_cons] at h
        exact ih h (c :: before) (hlast.trans hd)

theorem getLast?_lowerFrom {before cs : List Char} {a : Char} (h : cs.getLast? = some a)
    (ha : Stable a) : (lowerFrom before cs).getLast? = some a := by
  induction cs generalizing before with
  | nil => cases h
  | cons c cs ih =>
    rw [lowerFrom_cons, List.getLast?_append]
    cases cs with
    | nil =>
      obtain rfl : c = a := Option.some.inj h
      rw [lowerAt_of_stable before ha]
      rfl
    | cons b cs =>
      rw [List.getLast?_cons_cons] at h
      rw [ih h]
      rfl

/-- The ends of a text stay free of blanks. -/
theorem trimmed_lower {cs : List Char} (h : Trimmed cs) : Trimmed (lower cs) :=
  ⟨head_lowerFrom h.head [], last_lowerFrom h.last []⟩

theorem tidy_lowerFrom {cs : List Char} (h : Tidy cs) (before : List Char) :
    Tidy (lowerFrom before cs) := by
  induction cs generalizing before with
  | nil => exact h
  | cons c cs ih =>
    have hrest := ih (h.of_part (List.suffix_cons c cs).isInfix) (c :: before)
    rw [lowerFrom_cons]
    by_cases hc : isBlank c = true
    · obtain rfl := h.space c List.mem_cons_self hc
      have hhead : ∀ d, cs.head? = some d → ¬ isBlank d = true := by
        intro d hd hblank
        exact (List.isChain_cons.1 h.single).1 d hd ⟨hc, hblank⟩
      rw [lowerAt_of_stable before (stable_of_blank hc)]
      exact tidy_space (head_lowerFrom hhead _) hrest
    · exact tidy_append (fun d => not_blank_of_mem_lowerAt hc) hrest

theorem tidy_lower {cs : List Char} (h : Tidy cs) : Tidy (lower cs) :=
  tidy_lowerFrom h []

end MeterCheck.Text
