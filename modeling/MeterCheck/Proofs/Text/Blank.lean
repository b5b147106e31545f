import MeterCheck.Text.Blank
import Mathlib.Data.List.DropRight
import Mathlib.Data.List.Chain

/-!
# Blanks and words

* `words_induction`: the words of a text as they grow from the right;
* `Trimmed`: no blank at either end, which is what `trim` achieves;
* `Tidy`: every blank is a single space;
* `squeeze_eq_trim`: in a tidy text only the ends are left to be squeezed.
-/

namespace MeterCheck.Text

theorem words_append_blank {c : Char} (hc : isBlank c = true) (xs ys : List Char) :
    words (xs ++ c :: ys) = words xs ++ words ys := by
  unfold words
  rw [List.splitOnP_append_cons xs ys hc, List.filter_append]

theorem words_cons_blank {c : Char} (hc : isBlank c = true) (cs : List Char) :
    words (c :: cs) = words cs :=
  words_append_blank hc [] cs

/-- A text without blanks is one word. -/
theorem words_of_word {w : List Char} (hne : w ≠ []) (h : ∀ c ∈ w, ¬ isBlank c = true) :
    words w = [w] := by
  rw [words, List.splitOnP_eq_singleton fun c hc => Bool.not_eq_true _ ▸ h c hc]
  simpa using hne

theorem words_singleton {c : Char} (hc : ¬ isBlank c = true) : words [c] = [[c]] :=
  words_of_word (List.cons_ne_nil c []) (by simpa using hc)

theorem words_cons_gap {c d : Char} (hc : ¬ isBlank c = true) (hd : isBlank d = true)
    (cs : List Char) : words (c :: d :: cs) = [c] :: words cs := by
  have h := words_append_blank hd [c] cs
  rw [words_singleton hc] at h
  exact h

theorem words_cons_word {c d : Char} (hc : ¬ isBlank c = true) (hd : ¬ isBlank d = true)
    (cs : List Char) :
    ∃ w ws, words (d :: cs) = w :: ws ∧ words (c :: d :: cs) = (c :: w) :: ws := by
  obtain ⟨r, rs, hr⟩ := List.exists_cons_of_ne_nil (List.splitOnP_ne_nil isBlank cs)
  refine ⟨d :: r, rs.filter (! ·.isEmpty), ?_, ?_⟩
  · simp [words, List.splitOnP_cons_eq_if_modifyHead, hd, hr]
  · simp [words, List.splitOnP_cons_eq_if_modifyHead, hc, hd, hr]

/-- One case for each of the equations above. -/
theorem words_induction {P : List Char → Prop} (nil : P [])
    (blank : ∀ c cs, isBlank c = true → P cs → P (c :: cs))
    (last : ∀ c, ¬ isBlank c = true → P [c])
    (gap : ∀ c d cs, ¬ isBlank c = true → isBlank d = true → P cs → P (c :: d :: cs))
    (word : ∀ c d cs, ¬ isBlank c = true → ¬ isBlank d = true → P (d :: cs) →
      P (c :: d :: cs)) : ∀ cs, P cs
  | [] => nil
  | [c] => if h : isBlank c = true then blank c [] h nil else last c h
  | c :: d :: cs =>
    if hc : isBlank c = true then
      blank c (d :: cs) hc (words_induction nil blank last gap word (d :: cs))
    else if hd : isBlank d = true then
      gap c d cs hc hd (words_induction nil blank last gap word cs)
    else word c d cs hc hd (words_induction nil blank last gap word (d :: cs))

theorem mem_words {cs w : List Char} (h : w ∈ words cs) :
    w ≠ [] ∧ ∀ c ∈ w, ¬ isBlank c = true := by
  induction cs using words_induction generalizing w with
  | nil => cases h
  | blank c cs hc ih => exact ih (words_cons_blank hc cs ▸ h)
  | last c hc =>
    rw [words_singleton hc, List.mem_singleton] at h
    subst h
    simpa using hc
  | gap c d cs hc hd ih =>
    rw [words_cons_gap hc hd] at h
    rcases List.mem_cons.1 h with rfl | h
    · simpa using hc
    · exact ih h
  | word c d cs hc hd ih =>
    obtain ⟨v, ws, hv, hcons⟩ := words_cons_word hc hd cs
    rw [hcons] at h
    rcases List.mem_cons.1 h with rfl | h
    · have hblank := (ih (hv ▸ List.mem_cons_self)).2
      refine ⟨List.cons_ne_nil c v, ?_⟩
      intro a ha
      rcases List.mem_cons.1 ha with rfl | ha
      · exact hc
      · exact hblank a ha
    · exact ih (hv ▸ List.mem_cons_of_mem v h)

theorem words_of_blanks {cs : List Char} (h : ∀ c ∈ cs, isBlank c = true) : words cs = [] := by
  induction cs with
  | nil => rfl
  | cons c cs ih =>
    rw [words_cons_blank (h c List.mem_cons_self)]
    exact ih fun d hd => h d (List.mem_cons_of_mem c hd)

theorem words_blanks_append {blanks : List Char} (h : ∀ c ∈ blanks, isBlank c = true)
    (cs : List Char) : words (blanks ++ cs) = words cs := by
  induction blanks with
  | nil => rfl
  | cons c blanks ih =>
    rw [List.cons_append, words_cons_blank (h c List.mem_cons_self)]
    exact ih fun d hd => h d (List.mem_cons_of_mem c hd)

theorem words_append_blanks {blanks : List Char} (h : ∀ c ∈ blanks, isBlank c = true)
    (cs : List Char) : words (cs ++ blanks) = words cs := by
  cases blanks with
  | nil => rw [List.append_nil]
  | cons c blanks =>
    have hrest := words_of_blanks fun d hd => h d (List.mem_cons_of_mem c hd)
    rw [words_append_blank (h c List.mem_cons_self), hrest, List.append_nil]

/-! ## Squeezing -/

theorem squeeze_cons_blank {c : Char} (hc : isBlank c = true) (cs : List Char) :
    squeeze (c :: cs) = squeeze cs := by
  rw [squeeze, squeeze, words_cons_blank hc]

theorem squeeze_singleton {c : Char} (hc : ¬ isBlank c = true) : squeeze [c] = [c] := by
  rw [squeeze, words_singleton hc, List.intercalate_singleton]

theorem squeeze_cons_gap {c d : Char} (hc : ¬ isBlank c = true) (hd : isBlank d = true)
    (cs : List Char) :
    squeeze (c :: d :: cs) = if words cs = [] then [c] else c :: ' ' :: squeeze cs := by
  rw [squeeze, squeeze, words_cons_gap hc hd]
  cases words cs with
  | nil => rfl
  | cons w ws => rw [if_neg (List.cons_ne_nil w ws), List.intercalate_cons_cons]; rfl

theorem squeeze_cons_word {c d : Char} (hc : ¬ isBlank c = true) (hd : ¬ isBlank d = true)
    (cs : List Char) : squeeze (c :: d :: cs) = c :: squeeze (d :: cs) := by
  obtain ⟨w, ws, hw, hcons⟩ := words_cons_word hc hd cs
  rw [squeeze, squeeze, hw, hcons]
  cases ws with
  | nil => rfl
  | cons v vs => rw [List.intercalate_cons_cons, List.intercalate_cons_cons]; rfl

theorem squeeze_ne_nil {cs : List Char} (h : words cs ≠ []) : squeeze cs ≠ [] := by
  obtain ⟨w, ws, hw⟩ := List.exists_cons_of_ne_nil h
  have hne : w ≠ [] := (mem_words (hw ▸ List.mem_cons_self)).1
  rw [squeeze, hw]
  cases ws with
  | nil => rwa [List.intercalate_singleton]
  | cons v vs =>
    rw [List.intercalate_cons_cons]
    simp [hne]

/-- Squeezing keeps every character that is no blank. -/
theorem mem_squeeze {cs : List Char} {a : Char} (h : a ∈ cs) (ha : ¬ isBlank a = true) :
    a ∈ squeeze cs := by
  induction cs using words_induction with
  | nil => cases h
  | blank c cs hc ih =>
    rw [squeeze_cons_blank hc]
    rcases List.mem_cons.1 h with rfl | h
    · exact absurd hc ha
    · exact ih h
  | last c hc =>
    rw [squeeze_singleton hc]
    exact h
  | gap c d cs hc hd ih =>
    have hin : a = c ∨ a ∈ squeeze cs := by
      rcases List.mem_cons.1 h with rfl | h
      · exact .inl rfl
      · rcases List.mem_cons.1 h with rfl | h
        · exact absurd hd ha
        · exact .inr (ih h)
    rw [squeeze_cons_gap hc hd]
    split
    · rename_i hwords
      rw [squeeze, hwords] at hin
      simpa using hin
    · rcases hin with rfl | hin
      · exact List.mem_cons_self
      · exact List.mem_cons_of_mem c (List.mem_cons_of_mem ' ' hin)
  | word c d cs hc hd ih =>
    rw [squeeze_cons_word hc hd]
    rcases List.mem_cons.1 h with rfl | h
    · exact List.mem_cons_self
    · exact List.mem_cons_of_mem c (ih h)

/-- Squeezing keeps the last character, if it is no blank. -/
theorem getLast?_squeeze {cs : List Char} {a : Char} (h : cs.getLast? = some a)
    (ha : ¬ isBlank a = true) : (squeeze cs).getLast? = some a := by
  induction cs using words_induction with
  | nil => cases h
  | blank c cs hc ih =>
    rw [squeeze_cons_blank hc]
    cases cs with
    | nil =>
      obtain rfl : c = a := Option.some.inj h
      exact (ha hc).elim
    | cons d cs =>
      rw [List.getLast?_cons_cons] at h
      exact ih h
  | last c hc =>
    rw [squeeze_singleton hc]
    exact h
  | gap c d cs hc hd ih =>
    cases cs with
    | nil =>
      obtain rfl : d = a := Option.some.inj h
      exact (ha hd).elim
    | cons e cs =>
      rw [List.getLast?_cons_cons, List.getLast?_cons_cons] at h
      have hrest := ih h
      have hwords : words (e :: cs) ≠ [] := by
        intro hnil
        rw [squeeze, hnil] at hrest
        cases hrest
      have hparts : c :: ' ' :: squeeze (e :: cs) = [c, ' '] ++ squeeze (e :: cs) := rfl
      rw [squeeze_cons_gap hc hd, if_neg hwords, hparts, List.getLast?_append, hrest]
      rfl
  | word c d cs hc hd ih =>
    rw [List.getLast?_cons_cons] at h
    rw [squeeze_cons_word hc hd, ← List.singleton_append, List.getLast?_append, ih h]
    rfl

theorem mem_of_mem_squeeze {cs : List Char} {a : Char} (h : a ∈ squeeze cs) :
    a ∈ cs ∨ a = ' ' := by
  induction cs using words_induction with
  | nil => exact .inl h
  | blank c cs hc ih =>
    rw [squeeze_cons_blank hc] at h
    exact (ih h).imp_left (List.mem_cons_of_mem c)
  | last c hc =>
    rw [squeeze_singleton hc] at h
    exact .inl h
  | gap c d cs hc hd ih =>
    rw [squeeze_cons_gap hc hd] at h
    split at h
    · simp_all
    · simp only [List.mem_cons] at h ⊢
      rcases h with h | h | h
      · exact .inl (.inl h)
      · exact .inr h
      · exact (ih h).imp_left fun hmem => .inr (.inr hmem)
  | word c d cs hc hd ih =>
    rw [squeeze_cons_word hc hd] at h
    rcases List.mem_cons.1 h with h | h
    · exact .inl (h ▸ List.mem_cons_self)
    · exact (ih h).imp_left (List.mem_cons_of_mem c)

/-! ## Trimming -/

/-- No blank stands at either end. -/
structure Trimmed (cs : List Char) : Prop where
  head : ∀ c, cs.head? = some c → ¬ isBlank c = true
  last : ∀ c, cs.getLast? = some c → ¬ isBlank c = true

theorem trimmed_trim (cs : List Char) : Trimmed (trim cs) := by
  constructor
  · intro c hc
    have hdrop := List.head?_dropWhile_not isBlank cs
    have hprefix : trim cs <+: cs.dropWhile isBlank := List.rdropWhile_prefix isBlank _
    obtain ⟨rest, hrest⟩ := hprefix
    rw [← hrest, List.head?_append, hc] at hdrop
    simpa using hdrop
  · intro c hc
    have hne := List.ne_nil_of_mem (List.mem_of_getLast? hc)
    rw [← List.getLast_of_getLast?_eq_some hc]
    exact List.rdropWhile_last_not isBlank _ hne

/-- What is trimmed away are blanks. -/
theorem trim_split (cs : List Char) :
    ∃ before after, cs = before ++ trim cs ++ after ∧
      (∀ c ∈ before, isBlank c = true) ∧ ∀ c ∈ after, isBlank c = true := by
  refine ⟨cs.takeWhile isBlank, (cs.dropWhile isBlank).rtakeWhile isBlank, ?_, ?_, ?_⟩
  · have hdrop : trim cs ++ (cs.dropWhile isBlank).rtakeWhile isBlank = cs.dropWhile isBlank :=
      List.rdropWhile_append_rtakeWhile
    rw [List.append_assoc, hdrop, List.takeWhile_append_dropWhile]
  · intro c hc
    exact List.mem_takeWhile_imp hc
  · intro c hc
    exact List.mem_rtakeWhile_imp hc

theorem trim_isInfix (cs : List Char) : trim cs <:+: cs := by
  obtain ⟨before, after, hsplit, -, -⟩ := trim_split cs
  exact ⟨before, after, hsplit.symm⟩

theorem mem_trim {cs : List Char} {c : Char} (h : c ∈ cs) (hc : ¬ isBlank c = true) :
    c ∈ trim cs := by
  obtain ⟨before, after, hsplit, hbefore, hafter⟩ := trim_split cs
  rw [hsplit, List.mem_append, List.mem_append] at h
  rcases h with (h | h) | h
  · exact absurd (hbefore c h) hc
  · exact h
  · exact absurd (hafter c h) hc

theorem trim_of_trimmed {cs : List Char} (h : Trimmed cs) : trim cs = cs := by
  have hdrop : cs.dropWhile isBlank = cs := by
    cases cs with
    | nil => rfl
    | cons c cs => exact List.dropWhile_cons_of_neg (h.head c rfl)
  rw [trim, hdrop]
  apply List.rdropWhile_eq_self_iff.2
  intro hne
  exact h.last _ (List.getLast?_eq_some_getLast hne)

theorem trim_blanks_append {blanks : List Char} (h : ∀ c ∈ blanks, isBlank c = true)
    (cs : List Char) : trim (blanks ++ cs) = trim cs := by
  rw [trim, trim, List.dropWhile_append_of_pos h]

theorem trim_append_blanks {blanks : List Char} (h : ∀ c ∈ blanks, isBlank c = true)
    (cs : List Char) : trim (cs ++ blanks) = trim cs := by
  have hend (xs : List Char) : trimEnd (xs ++ blanks) = trimEnd xs := by
    rw [trimEnd, trimEnd, List.reverse_append, List.dropWhile_append_of_pos]
    intro c hc
    exact h c (List.mem_reverse.1 hc)
  rw [trim, trim, List.dropWhile_append]
  split
  · rename_i hempty
    rw [List.isEmpty_iff.1 hempty, List.dropWhile_eq_nil_iff.2 h]
  · exact hend _

theorem words_trim (cs : List Char) : words (trim cs) = words cs := by
  obtain ⟨before, after, hsplit, hbefore, hafter⟩ := trim_split cs
  have hwords := congrArg words hsplit
  rw [words_append_blanks hafter, words_blanks_append hbefore] at hwords
  exact hwords.symm

/-- The outermost words stand at the ends of a squeezed text. -/
theorem trimmed_squeeze (cs : List Char) : Trimmed (squeeze cs) := by
  induction cs using words_induction with
  | nil => exact ⟨nofun, nofun⟩
  | blank c cs hc ih =>
    rw [squeeze_cons_blank hc]
    exact ih
  | last c hc =>
    rw [squeeze_singleton hc]
    constructor <;> simpa using hc
  | gap c d cs hc hd ih =>
    rw [squeeze_cons_gap hc hd]
    split
    · constructor <;> simpa using hc
    · rename_i hwords
      obtain ⟨a, as, has⟩ := List.exists_cons_of_ne_nil (squeeze_ne_nil hwords)
      rw [has] at ih ⊢
      refine ⟨by simpa using hc, ?_⟩
      rw [List.getLast?_cons_cons, List.getLast?_cons_cons]
      exact ih.last
  | word c d cs hc hd ih =>
    obtain ⟨w, ws, hw, -⟩ := words_cons_word hc hd cs
    have hwords : words (d :: cs) ≠ [] := hw ▸ List.cons_ne_nil w ws
    obtain ⟨a, as, has⟩ := List.exists_cons_of_ne_nil (squeeze_ne_nil hwords)
    rw [squeeze_cons_word hc hd]
    rw [has] at ih ⊢
    refine ⟨by simpa using hc, ?_⟩
    rw [List.getLast?_cons_cons]
    exact ih.last

/-! ## Tidy texts -/

/-- Every blank is a space with none beside it. -/
structure Tidy (cs : List Char) : Prop where
  space : ∀ c ∈ cs, isBlank c = true → c = ' '
  single : cs.IsChain fun c d => ¬ (isBlank c = true ∧ isBlank d = true)

theorem Tidy.of_part {cs p : List Char} (h : Tidy cs) (hp : p <:+: cs) : Tidy p :=
  ⟨fun c hc => h.space c (hp.subset hc), h.single.infix hp⟩

theorem tidy_cons {c : Char} {cs : List Char} (hc : ¬ isBlank c = true) (h : Tidy cs) :
    Tidy (c :: cs) := by
  constructor
  · intro d hd
    rcases List.mem_cons.1 hd with rfl | hd
    · exact fun hblank => absurd hblank hc
    · exact h.space d hd
  · exact h.single.cons fun d _ hboth => hc hboth.1

theorem tidy_append {word cs : List Char} (hword : ∀ c ∈ word, ¬ isBlank c = true)
    (h : Tidy cs) : Tidy (word ++ cs) := by
  induction word with
  | nil => exact h
  | cons c word ih =>
    refine tidy_cons (hword c List.mem_cons_self) (ih ?_)
    exact fun d hd => hword d (List.mem_cons_of_mem c hd)

theorem tidy_space {cs : List Char} (hhead : ∀ c, cs.head? = some c → ¬ isBlank c = true)
    (h : Tidy cs) : Tidy (' ' :: cs) := by
  constructor
  · intro d hd hblank
    rcases List.mem_cons.1 hd with rfl | hd
    · rfl
    · exact h.space d hd hblank
  · exact h.single.cons fun d hd hboth => hhead d hd hboth.2

theorem tidy_squeeze (cs : List Char) : Tidy (squeeze cs) := by
  induction cs using words_induction with
  | nil => exact ⟨nofun, .nil⟩
  | blank c cs hc ih =>
    rw [squeeze_cons_blank hc]
    exact ih
  | last c hc =>
    rw [squeeze_singleton hc]
    exact tidy_cons hc ⟨nofun, .nil⟩
  | gap c d cs hc hd ih =>
    rw [squeeze_cons_gap hc hd]
    split
    · exact tidy_cons hc ⟨nofun, .nil⟩
    · exact tidy_cons hc (tidy_space (trimmed_squeeze cs).head ih)
  | word c d cs hc hd ih =>
    rw [squeeze_cons_word hc hd]
    exact tidy_cons hc ih

theorem squeeze_of_tidy {cs : List Char} (ht : Trimmed cs) (h : Tidy cs) : squeeze cs = cs := by
  induction cs using words_induction with
  | nil => rfl
  | blank c cs hc ih => exact absurd hc (ht.head c rfl)
  | last c hc => exact squeeze_singleton hc
  | gap c d cs hc hd ih =>
    obtain rfl := h.space d (by simp) hd
    have hrest : Trimmed cs := by
      cases cs with
      | nil => exact ⟨nofun, nofun⟩
      | cons a as =>
        have hchain := h.single.tail.rel
        have hlast := ht.last
        rw [List.getLast?_cons_cons, List.getLast?_cons_cons] at hlast
        exact ⟨by simpa [hd] using hchain, hlast⟩
    have hcs := ih hrest (h.of_part (List.suffix_append [c, ' '] cs).isInfix)
    rw [squeeze_cons_gap hc hd, if_neg ?_, hcs]
    intro hwords
    rw [squeeze, hwords] at hcs
    subst hcs
    exact ht.last ' ' rfl hd
  | word c d cs hc hd ih =>
    have hrest : Trimmed (d :: cs) := by
      refine ⟨by simpa using hd, ?_⟩
      have hlast := ht.last
      rwa [List.getLast?_cons_cons] at hlast
    rw [squeeze_cons_word hc hd, ih hrest (h.of_part (List.suffix_cons c (d :: cs)).isInfix)]

/-- In a tidy text only the ends are left to be squeezed. -/
theorem squeeze_eq_trim {cs : List Char} (h : Tidy cs) : squeeze cs = trim cs := by
  have htrim := squeeze_of_tidy (trimmed_trim cs) (h.of_part (trim_isInfix cs))
  rwa [squeeze, words_trim] at htrim

/-- Splitting a tidy text at its spaces gives its words. -/
theorem splitOn_space {cs : List Char} (ht : Trimmed cs) (h : Tidy cs) (hne : cs ≠ []) :
    cs.splitOn ' ' = words cs := by
  have hcs := squeeze_of_tidy ht h
  have hwords : words cs ≠ [] := by
    intro hnil
    rw [squeeze, hnil] at hcs
    exact hne hcs.symm
  have hspace : ∀ w ∈ words cs, ' ' ∉ w := by
    intro w hw hmem
    exact (mem_words hw).2 ' ' hmem (by decide)
  have hsplit := List.splitOn_intercalate ' ' hspace hwords
  rwa [← squeeze, hcs] at hsplit

end MeterCheck.Text
