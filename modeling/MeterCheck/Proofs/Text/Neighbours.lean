import MeterCheck.Proofs.Text.LowerCase

/-!
# Lower case beside other characters

Only for a sigma does lower case look at the neighbours.

* `Barrier`: what ends a word there, and is kept by lower case;
* `lower_append_barrier`: the two sides of a barrier are mapped each by itself;
* `lower_map_toLower`: the case of an ASCII letter does not matter, not even beside a sigma.
-/

namespace MeterCheck.Text

theorem meetsCased_cons (c : Char) (cs : List Char) :
    meetsCased (c :: cs) = if isCaseIgnorable c then meetsCased cs else isCased c := by
  unfold meetsCased
  rw [List.dropWhile_cons]
  split <;> rfl

/-- Of its neighbours a character sees no more than this. -/
theorem lowerAt_congr {before before' rest rest' : List Char}
    (hbefore : meetsCased before = meetsCased before') (hrest : meetsCased rest = meetsCased rest')
    (c : Char) : lowerAt before c rest = lowerAt before' c rest' := by
  rw [lowerAt, lowerAt, endsWord, endsWord, hbefore, hrest]

/-! ## Barriers -/

/-- Kept by lower case, without case, and not skipped in search of a cased letter. -/
structure Barrier (c : Char) : Prop where
  stable : Stable c
  uncased : isCased c = false
  seen : isCaseIgnorable c = false

/-- No interval of the list meets the given one. -/
def missedBy (ranges : List (Nat × Nat)) (first last : Nat) : Bool :=
  ranges.all fun r => r.2.blt first || last.blt r.1

theorem inRanges_eq_false {ranges : List (Nat × Nat)} {first last n : Nat}
    (h : missedBy ranges first last = true) (hn : first ≤ n ∧ n ≤ last) :
    inRanges ranges n = false := by
  rw [inRanges, List.any_eq_false]
  intro r hr
  have hmiss := List.all_eq_true.1 h r hr
  simp only [Bool.or_eq_true, Nat.blt_eq, Bool.and_eq_true, decide_eq_true_eq] at hmiss ⊢
  omega

theorem blankRanges_missed : (blankRanges.all fun r =>
    missedBy casedRanges r.1 r.2 && missedBy caseIgnorableRanges r.1 r.2) = true := by
  decide +kernel

theorem barrier_of_blank {c : Char} (h : isBlank c = true) : Barrier c := by
  obtain ⟨r, hr, hc⟩ := exists_blankRange h
  have hmiss := List.all_eq_true.1 blankRanges_missed r hr
  rw [Bool.and_eq_true] at hmiss
  exact ⟨stable_of_blank h, inRanges_eq_false hmiss.1 hc, inRanges_eq_false hmiss.2 hc⟩

section

variable {c : Char}

/-- No cased letter is seen across a barrier. -/
theorem Barrier.meetsCased_append (hc : Barrier c) (xs ys : List Char) :
    meetsCased (xs ++ c :: ys) = meetsCased xs := by
  induction xs with
  | nil =>
    rw [List.nil_append, meetsCased_cons, hc.seen, hc.uncased]
    rfl
  | cons a xs ih => rw [List.cons_append, meetsCased_cons, meetsCased_cons, ih]

theorem Barrier.lowerFrom_append (hc : Barrier c) (before past cs : List Char) :
    lowerFrom (before ++ c :: past) cs = lowerFrom before cs := by
  induction cs generalizing before with
  | nil => rfl
  | cons a cs ih =>
    have hbefore := hc.meetsCased_append before past
    rw [lowerFrom_cons, lowerFrom_cons, lowerAt_congr hbefore rfl, ← List.cons_append, ih]

/-- The two sides of a barrier are mapped each by itself. -/
theorem lower_append_barrier (hc : Barrier c) (xs ys : List Char) :
    lower (xs ++ c :: ys) = lower xs ++ c :: lower ys := by
  suffices h : ∀ before,
      lowerFrom before (xs ++ c :: ys) = lowerFrom before xs ++ c :: lower ys from h []
  intro before
  induction xs generalizing before with
  | nil =>
    have hpast := hc.lowerFrom_append [] before ys
    rw [List.nil_append, lowerFrom_cons, lowerAt_of_stable before hc.stable]
    exact congrArg (c :: ·) hpast
  | cons a xs ih =>
    have hrest := hc.meetsCased_append xs ys
    rw [List.cons_append, lowerFrom_cons, lowerFrom_cons, lowerAt_congr rfl hrest, ih,
      List.append_assoc]

end

/-! ## ASCII letters -/

/-- What lower case asks about a character. -/
structure SameCase (c d : Char) : Prop where
  cased : isCased c = isCased d
  ignorable : isCaseIgnorable c = isCaseIgnorable d
  lower : lowerChar c = lowerChar d
  dotted : c = 'İ' ↔ d = 'İ'
  sigma : c = 'Σ' ↔ d = 'Σ'

theorem capitals_toLower : ((List.range' 0x41 26).all fun n =>
    let c := Char.ofNat n
    lowerChar c == c.toLower && isCased c && isCased c.toLower && decide (0x61 ≤ c.toLower.toNat)
      && decide (c.toLower.toNat ≤ 0x7A)) = true := by
  decide +kernel

theorem ascii_seen : missedBy caseIgnorableRanges 0x41 0x5A = true ∧
    missedBy caseIgnorableRanges 0x61 0x7A = true := by
  decide +kernel

theorem sameCase_toLower (c : Char) : SameCase c.toLower c := by
  by_cases hcapital : c.isUpper = true
  · have hbounds : 0x41 ≤ c.toNat ∧ c.toNat ≤ 0x5A := of_decide_eq_true hcapital
    have hrange : c.toNat ∈ List.range' 0x41 26 := by
      rw [List.mem_range'_1]
      omega
    have hall := List.all_eq_true.1 capitals_toLower c.toNat hrange
    simp only [Char.ofNat_toNat, Bool.and_eq_true, beq_iff_eq, decide_eq_true_eq] at hall
    obtain ⟨⟨⟨⟨hlower, hcased⟩, hcased'⟩, hlow⟩, hhigh⟩ := hall
    have hother {d : Char} (hd : 0x7A < d.toNat) : c.toLower = d ↔ c = d := by
      apply iff_of_false
      · rintro rfl
        omega
      · rintro rfl
        omega
    refine ⟨hcased'.trans hcased.symm, ?_, ?_, hother (by decide), hother (by decide)⟩
    · have hseen : isCaseIgnorable c = false := inRanges_eq_false ascii_seen.1 hbounds
      rw [hseen]
      exact inRanges_eq_false ascii_seen.2 ⟨hlow, hhigh⟩
    · rw [← hlower, lowerChar_lowerChar]
  · have hkept : c.toLower = c := dif_neg fun h => hcapital (decide_eq_true h)
    rw [hkept]
    exact ⟨rfl, rfl, rfl, Iff.rfl, Iff.rfl⟩

theorem meetsCased_map_toLower (cs : List Char) :
    meetsCased (cs.map Char.toLower) = meetsCased cs := by
  induction cs with
  | nil => rfl
  | cons c cs ih =>
    have hsame := sameCase_toLower c
    rw [List.map_cons, meetsCased_cons, meetsCased_cons, hsame.ignorable, hsame.cased, ih]

theorem lowerAt_toLower (before : List Char) (c : Char) (rest : List Char) :
    lowerAt (before.map Char.toLower) c.toLower (rest.map Char.toLower) =
      lowerAt before c rest := by
  have hsame := sameCase_toLower c
  rw [lowerAt_congr (meetsCased_map_toLower before) (meetsCased_map_toLower rest), lowerAt, lowerAt,
    hsame.lower]
  simp only [hsame.dotted, hsame.sigma]

theorem lower_map_toLower (cs : List Char) : lower (cs.map Char.toLower) = lower cs := by
  suffices h : ∀ before, lowerFrom (before.map Char.toLower) (cs.map Char.toLower) =
      lowerFrom before cs from h []
  intro before
  induction cs generalizing before with
  | nil => rfl
  | cons c cs ih =>
    rw [List.map_cons, lowerFrom_cons, lowerFrom_cons, lowerAt_toLower, ← List.map_cons, ih]

/-- Texts whose letters differ at most in their ASCII case have one lower case. -/
theorem lower_eq_of_toLower_eq {cs ds : List Char}
    (h : cs.map Char.toLower = ds.map Char.toLower) : lower cs = lower ds := by
  rw [← lower_map_toLower cs, h, lower_map_toLower]

end MeterCheck.Text
