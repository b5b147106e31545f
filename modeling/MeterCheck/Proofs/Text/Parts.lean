import MeterCheck.Proofs.Text.Neighbours
import MeterCheck.Proofs.Text.Pieces

/-!
# Parts of a text

The words of a text together with the commas and asterisks between them.

* `parts_gap`, `parts_append_mark`: blanks only tell words apart, and a mark does so without them;
* `splitOn_parts`: cutting a text at a mark cuts its parts there;
* `parts_lower`, `parts_squeeze`: lower case maps each part by itself, and squeezing changes none.
-/

namespace MeterCheck.Text

/-- Tells words apart even without a blank beside it. -/
def isMark (c : Char) : Bool := c == ',' || c == '*'

/-- The text with a space on both sides of every mark. -/
def spread (cs : List Char) : List Char :=
  cs.flatMap fun c => if isMark c then [' ', c, ' '] else [c]

/-- The words of a text, and the marks as words of their own. -/
def parts (cs : List Char) : List (List Char) := words (spread cs)

variable {c sep : Char} {cs : List Char}

theorem mark_cases (h : isMark c = true) : c = ',' ∨ c = '*' := by
  simpa [isMark] using h

theorem not_blank_of_mark (h : isMark c = true) : ¬ isBlank c = true := by
  rcases mark_cases h with rfl | rfl <;> decide

theorem not_mark_of_blank (h : isBlank c = true) : ¬ isMark c = true :=
  fun hmark => not_blank_of_mark hmark h

theorem barrier_of_mark (h : isMark c = true) : Barrier c := by
  rcases mark_cases h with rfl | rfl
  · exact ⟨⟨by decide +kernel, by decide⟩, by decide +kernel, by decide +kernel⟩
  · exact ⟨⟨by decide +kernel, by decide⟩, by decide +kernel, by decide +kernel⟩

/-! ## Putting texts together -/

theorem spread_append (xs ys : List Char) : spread (xs ++ ys) = spread xs ++ spread ys :=
  List.flatMap_append

theorem spread_cons_of_not_mark (h : ¬ isMark c = true) (cs : List Char) :
    spread (c :: cs) = c :: spread cs := by
  rw [spread, List.flatMap_cons, if_neg h]
  rfl

theorem spread_cons_mark (h : isMark c = true) (cs : List Char) :
    spread (c :: cs) = ' ' :: c :: ' ' :: spread cs := by
  rw [spread, List.flatMap_cons, if_pos h]
  rfl

theorem spread_of_no_mark (h : ∀ c ∈ cs, ¬ isMark c = true) : spread cs = cs := by
  induction cs with
  | nil => rfl
  | cons c cs ih =>
    rw [spread_cons_of_not_mark (h c List.mem_cons_self), ih]
    exact fun d hd => h d (List.mem_cons_of_mem c hd)

theorem parts_of_no_mark (h : ∀ c ∈ cs, ¬ isMark c = true) : parts cs = words cs := by
  rw [parts, spread_of_no_mark h]

theorem parts_append_blank (hc : isBlank c = true) (xs ys : List Char) :
    parts (xs ++ c :: ys) = parts xs ++ parts ys := by
  rw [parts, spread_append, spread_cons_of_not_mark (not_mark_of_blank hc), words_append_blank hc]
  rfl

theorem parts_append_mark (hc : isMark c = true) (xs ys : List Char) :
    parts (xs ++ c :: ys) = parts xs ++ [c] :: parts ys := by
  have hspace : isBlank ' ' = true := by decide
  rw [parts, spread_append, spread_cons_mark hc, words_append_blank hspace,
    words_cons_gap (not_blank_of_mark hc) hspace]
  rfl

theorem parts_blanks_append {blanks : List Char} (h : ∀ c ∈ blanks, isBlank c = true)
    (cs : List Char) : parts (blanks ++ cs) = parts cs := by
  induction blanks with
  | nil => rfl
  | cons c blanks ih =>
    rw [List.cons_append]
    apply (parts_append_blank (h c List.mem_cons_self) [] _).trans
    exact ih fun d hd => h d (List.mem_cons_of_mem c hd)

/-- A run of blanks tells two words apart, whatever its length. -/
theorem parts_gap {blanks : List Char} (h : ∀ c ∈ blanks, isBlank c = true) (hne : blanks ≠ [])
    (xs ys : List Char) : parts (xs ++ (blanks ++ ys)) = parts xs ++ parts ys := by
  obtain ⟨c, rest, rfl⟩ := List.exists_cons_of_ne_nil hne
  rw [List.cons_append, parts_append_blank (h c List.mem_cons_self), parts_blanks_append]
  exact fun d hd => h d (List.mem_cons_of_mem c hd)

theorem parts_append_blanks {blanks : List Char} (h : ∀ c ∈ blanks, isBlank c = true)
    (cs : List Char) : parts (cs ++ blanks) = parts cs := by
  by_cases hnil : blanks = []
  · rw [hnil, List.append_nil]
  · have hgap := parts_gap h hnil cs []
    rw [List.append_nil] at hgap
    exact hgap.trans (List.append_nil _)

/-- Beside a mark blanks tell nothing apart. -/
theorem parts_blanks_mark {blanks : List Char} (h : ∀ c ∈ blanks, isBlank c = true)
    (hc : isMark c = true) (xs ys : List Char) :
    parts (xs ++ (blanks ++ c :: ys)) = parts (xs ++ c :: ys) := by
  by_cases hnil : blanks = []
  · rw [hnil, List.nil_append]
  · have hmark := parts_append_mark hc [] ys
    rw [parts_gap h hnil, parts_append_mark hc]
    exact congrArg (parts xs ++ ·) hmark

theorem parts_mark_blanks {blanks : List Char} (h : ∀ c ∈ blanks, isBlank c = true)
    (hc : isMark c = true) (xs ys : List Char) :
    parts (xs ++ c :: (blanks ++ ys)) = parts (xs ++ c :: ys) := by
  rw [parts_append_mark hc, parts_append_mark hc, parts_blanks_append h]

/-! ## Taking texts apart -/

/-- A text ends before the first stop, or goes on after it. -/
theorem stops_induction {P : List Char → Prop} (stop : Char → Bool)
    (clear : ∀ cs, (∀ c ∈ cs, ¬ stop c = true) → P cs)
    (cut : ∀ left c right, (∀ a ∈ left, ¬ stop a = true) → stop c = true → P right →
      P (left ++ c :: right)) : ∀ cs, P cs := by
  -- the induction is on what is still ahead; `left` is what stands since the last stop
  suffices h : ∀ cs left, (∀ a ∈ left, ¬ stop a = true) → P (left ++ cs) by
    intro cs
    exact h cs [] (List.forall_mem_nil _)
  intro cs
  induction cs with
  | nil =>
    intro left hleft
    rw [List.append_nil]
    exact clear left hleft
  | cons c cs ih =>
    intro left hleft
    by_cases hc : stop c = true
    · exact cut left c cs hleft hc (ih [] (List.forall_mem_nil _))
    · rw [← List.singleton_append, ← List.append_assoc]
      apply ih
      intro a ha
      rcases List.mem_append.1 ha with ha | ha
      · exact hleft a ha
      · exact List.mem_singleton.1 ha ▸ hc

/-- A text without blanks has no word but itself. -/
theorem words_of_no_blank (h : ∀ c ∈ cs, ¬ isBlank c = true) :
    words cs = if cs = [] then [] else [cs] := by
  split
  · rename_i hnil
    rw [hnil]
    rfl
  · rename_i hne
    exact words_of_word hne h

theorem mem_of_mem_words {w : List Char} (h : w ∈ words cs) (hc : c ∈ w) : c ∈ cs := by
  induction cs using stops_induction isBlank with
  | clear cs hcs =>
    rw [words_of_no_blank hcs] at h
    split at h
    · cases h
    · exact List.mem_singleton.1 h ▸ hc
  | cut left d right hleft hd ih =>
    rw [words_append_blank hd, List.mem_append, words_of_no_blank hleft] at h
    rw [List.mem_append, List.mem_cons]
    rcases h with h | h
    · split at h
      · cases h
      · exact .inl (List.mem_singleton.1 h ▸ hc)
    · exact .inr (.inr (ih h))

theorem flatMap_parts_of_no_blank (h : ∀ c ∈ cs, ¬ isBlank c = true) :
    (words cs).flatMap parts = parts cs := by
  rw [words_of_no_blank h]
  split
  · rename_i hnil
    rw [hnil]
    rfl
  · rw [List.flatMap_singleton]

/-- The parts of a text are those of its words. -/
theorem flatMap_parts_words (cs : List Char) : (words cs).flatMap parts = parts cs := by
  induction cs using stops_induction isBlank with
  | clear cs hcs => exact flatMap_parts_of_no_blank hcs
  | cut left c right hleft hc ih =>
    rw [words_append_blank hc, List.flatMap_append, flatMap_parts_of_no_blank hleft, ih,
      parts_append_blank hc]

theorem parts_intercalate (ws : List (List Char)) :
    parts ([' '].intercalate ws) = ws.flatMap parts := by
  induction ws with
  | nil => rfl
  | cons w ws ih =>
    cases ws with
    | nil => rw [List.intercalate_singleton, List.flatMap_singleton]
    | cons v ws =>
      rw [List.intercalate_cons_cons, List.append_assoc, List.singleton_append,
        parts_append_blank (by decide), ih, ← List.flatMap_cons]

theorem parts_squeeze (cs : List Char) : parts (squeeze cs) = parts cs := by
  rw [squeeze, parts_intercalate, flatMap_parts_words]

/-! ## Cutting at a mark -/

theorem mem_of_singleton_mem_parts (hsep : isMark sep = true) (h : [sep] ∈ parts cs) :
    sep ∈ cs := by
  have hspread : sep ∈ spread cs := mem_of_mem_words h List.mem_cons_self
  obtain ⟨c, hc, hmem⟩ := List.mem_flatMap.1 hspread
  have hspace : sep ≠ ' ' := by
    rintro rfl
    exact absurd hsep (by decide)
  have hsame : sep = c := by
    split at hmem
    · simpa [hspace] using hmem
    · exact List.mem_singleton.1 hmem
  exact hsame ▸ hc

/-- Cutting a text at a mark cuts its parts there. -/
theorem splitOn_parts (hsep : isMark sep = true) (cs : List Char) :
    (parts cs).splitOn [sep] = (cs.splitOn sep).map parts := by
  have hpart {cs : List Char} (h : sep ∉ cs) : [sep] ∉ parts cs :=
    fun hmem => h (mem_of_singleton_mem_parts hsep hmem)
  induction cs using stops_induction (· == sep) with
  | clear cs hcs =>
    have hnot : sep ∉ cs := fun hmem => hcs sep hmem (beq_self_eq_true sep)
    rw [List.splitOn_eq_singleton hnot, List.splitOn_eq_singleton (hpart hnot), List.map_singleton]
  | cut left c right hleft hc ih =>
    obtain rfl := beq_iff_eq.1 hc
    have hnot : c ∉ left := fun hmem => hleft c hmem (beq_self_eq_true c)
    rw [parts_append_mark hsep, List.splitOn_append_cons_self_of_not_mem (hpart hnot), ih,
      List.splitOn_append_cons_self_of_not_mem hnot, List.map_cons]

/-! ## Lower case -/

theorem marks_missed (h : isMark c = true) :
    (lowerRanges.all fun r => r.misses c.toNat c.toNat) = true := by
  rcases mark_cases h with rfl | rfl <;> decide +kernel

theorem lowerChar_not_mark (h : ¬ isMark c = true) : ¬ isMark (lowerChar c) = true := by
  intro hmark
  have hsame := lowerChar_of_misses (marks_missed hmark) (.inr ⟨le_refl _, le_refl _⟩)
  exact h (hsame ▸ hmark)

theorem not_mark_of_mem_lowerAt {before rest : List Char} {d : Char} (hc : ¬ isMark c = true)
    (h : d ∈ lowerAt before c rest) : ¬ isMark d = true := by
  rcases mem_lowerAt h with hd | ⟨-, rfl⟩
  · have hspecial : (specialForms.all fun d => !isMark d) = true := by decide
    rw [Bool.not_eq_true, ← Bool.not_eq_true']
    exact List.all_eq_true.1 hspecial d hd
  · exact lowerChar_not_mark hc

theorem lower_ne_nil (h : cs ≠ []) : lower cs ≠ [] := by
  obtain ⟨c, rest, rfl⟩ := List.exists_cons_of_ne_nil h
  rw [lower, lowerFrom_cons]
  exact List.append_ne_nil_of_left_ne_nil (lowerAt_ne_nil [] c rest) _

theorem parts_lower_of_clear (hblank : ∀ c ∈ cs, ¬ isBlank c = true)
    (hmark : ∀ c ∈ cs, ¬ isMark c = true) : parts (lower cs) = (parts cs).map lower := by
  have hblank' : ∀ d ∈ lower cs, ¬ isBlank d = true := by
    intro d hd
    obtain ⟨c, hc, left, right, hmem⟩ := exists_mem_lowerAt hd
    exact not_blank_of_mem_lowerAt (hblank c hc) hmem
  have hmark' : ∀ d ∈ lower cs, ¬ isMark d = true := by
    intro d hd
    obtain ⟨c, hc, left, right, hmem⟩ := exists_mem_lowerAt hd
    exact not_mark_of_mem_lowerAt (hmark c hc) hmem
  by_cases hnil : cs = []
  · subst hnil
    rfl
  · rw [parts_of_no_mark hmark, parts_of_no_mark hmark', words_of_word hnil hblank,
      words_of_word (lower_ne_nil hnil) hblank', List.map_singleton]

/-- No sigma sees beyond its own part, so each part has a lower case of its own. -/
theorem parts_lower (cs : List Char) : parts (lower cs) = (parts cs).map lower := by
  induction cs using stops_induction (fun c => isBlank c || isMark c) with
  | clear cs hcs =>
    simp only [Bool.or_eq_true, not_or] at hcs
    exact parts_lower_of_clear (fun c hc => (hcs c hc).1) fun c hc => (hcs c hc).2
  | cut left c right hleft hc ih =>
    simp only [Bool.or_eq_true, not_or] at hleft hc
    have hleft' := parts_lower_of_clear (fun a ha => (hleft a ha).1) fun a ha => (hleft a ha).2
    rcases hc with hblank | hmark
    · rw [lower_append_barrier (barrier_of_blank hblank), parts_append_blank hblank,
        parts_append_blank hblank, List.map_append, hleft', ih]
    · have hlower : lower [c] = [c] :=
        lowerFrom_of_stable (by simpa using (barrier_of_mark hmark).stable) []
      rw [lower_append_barrier (barrier_of_mark hmark), parts_append_mark hmark,
        parts_append_mark hmark, List.map_append, List.map_cons, hleft', ih, hlower]

end MeterCheck.Text
