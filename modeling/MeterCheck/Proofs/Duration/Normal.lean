import MeterCheck.Duration.Classify
import MeterCheck.Proofs.Text.LowerCase

/-!
# Normal texts

* `Normal`: what `normalize` produces and leaves as it is;
* `normalize_of_part`: in a part of a normal text only blanks at the ends remain to be dropped;
* `infix_of_mem_splitOn`: the pieces of a text are such parts.
-/

namespace MeterCheck

/-- Lower case, with one space between words and none around them. -/
structure Normal (cs : List Char) : Prop where
  trimmed : Text.Trimmed cs
  tidy : Text.Tidy cs
  stable : ∀ c ∈ cs, Text.Stable c

theorem normal_normalize (cs : List Char) : Normal (normalize cs) :=
  ⟨Text.trimmed_lower (Text.trimmed_squeeze cs), Text.tidy_lower (Text.tidy_squeeze cs),
    fun _ => Text.stable_of_mem_lowerFrom⟩

variable {cs p : List Char}

/-- A part of a normal text may still have a blank at either end. -/
theorem normalize_of_part (h : Normal cs) (hp : p <:+: cs) : normalize p = Text.trim p := by
  have hstable : ∀ c ∈ Text.trim p, Text.Stable c := by
    intro c hc
    exact h.stable c (hp.subset ((Text.trim_isInfix p).subset hc))
  rw [normalize, Text.squeeze_eq_trim (h.tidy.of_part hp)]
  exact Text.lowerFrom_of_stable hstable []

theorem normalize_of_normal (h : Normal cs) : normalize cs = cs := by
  rw [normalize_of_part h (List.infix_refl cs), Text.trim_of_trimmed h.trimmed]

theorem normalize_normalize (cs : List Char) : normalize (normalize cs) = normalize cs :=
  normalize_of_normal (normal_normalize cs)

theorem Normal.trim_of_part (h : Normal cs) (hp : p <:+: cs) : Normal (Text.trim p) :=
  normalize_of_part h hp ▸ normal_normalize p

/-- A character that is neither a blank nor changed by lower case is kept. -/
theorem mem_normalize {c : Char} (h : c ∈ cs) (hblank : ¬ Text.isBlank c = true)
    (hstable : Text.Stable c) : c ∈ normalize cs :=
  Text.mem_lowerFrom_of_stable hstable (Text.mem_squeeze h hblank)

/-- The same for the last character. -/
theorem getLast?_normalize {c : Char} (h : cs.getLast? = some c) (hblank : ¬ Text.isBlank c = true)
    (hstable : Text.Stable c) : (normalize cs).getLast? = some c :=
  Text.getLast?_lowerFrom (Text.getLast?_squeeze h hblank) hstable

/-! ## Pieces -/

theorem infix_intercalate {sep : List Char} {parts : List (List Char)} (h : p ∈ parts) :
    p <:+: sep.intercalate parts := by
  induction parts with
  | nil => cases h
  | cons q parts ih =>
    cases parts with
    | nil =>
      simp only [List.mem_singleton.1 h, List.intercalate_singleton, List.infix_refl]
    | cons r parts =>
      rw [List.intercalate_cons_cons]
      rcases List.mem_cons.1 h with rfl | h
      · rw [List.append_assoc]
        exact (List.prefix_append p _).isInfix
      · exact (ih h).trans (List.suffix_append _ _).isInfix

theorem infix_of_mem_splitOn {sep : Char} (h : p ∈ cs.splitOn sep) : p <:+: cs := by
  have hpart : p <:+: [sep].intercalate (cs.splitOn sep) := infix_intercalate h
  rwa [List.intercalate_splitOn] at hpart

section

variable {sep : Char} {left : List Char}

theorem takeWhile_append_sep (h : sep ∉ left) (right : List Char) :
    (left ++ sep :: right).takeWhile (· != sep) = left := by
  have hall : ∀ c ∈ left, (c != sep) = true := by
    intro c hc
    exact bne_iff_ne.2 (ne_of_mem_of_not_mem hc h)
  rw [List.takeWhile_append_of_pos hall, List.takeWhile_cons_of_neg (by simp), List.append_nil]

theorem dropWhile_append_sep (h : sep ∉ left) (right : List Char) :
    (left ++ sep :: right).dropWhile (· != sep) = sep :: right := by
  have hall : ∀ c ∈ left, (c != sep) = true := by
    intro c hc
    exact bne_iff_ne.2 (ne_of_mem_of_not_mem hc h)
  rw [List.dropWhile_append_of_pos hall, List.dropWhile_cons_of_neg (by simp)]

theorem takeWhile_of_not_mem (h : sep ∉ left) : left.takeWhile (· != sep) = left := by
  rw [List.takeWhile_eq_self_iff]
  intro c hc
  exact bne_iff_ne.2 (ne_of_mem_of_not_mem hc h)

/-- The first piece ends before the first separator. -/
theorem splitOn_head (cs : List Char) (sep : Char) :
    ∃ rest, cs.splitOn sep = cs.takeWhile (· != sep) :: rest := by
  by_cases h : sep ∈ cs
  · obtain ⟨left, right, rfl, hleft⟩ := List.eq_append_cons_of_mem h
    rw [List.splitOn_append_cons_self_of_not_mem hleft, takeWhile_append_sep hleft]
    exact ⟨_, rfl⟩
  · rw [List.splitOn_eq_singleton h, takeWhile_of_not_mem h]
    exact ⟨[], rfl⟩

end

end MeterCheck
