import MeterCheck.Proofs.Text.Blank

/-!
# Pieces of a text

A text is cut into pieces at a separator that is no blank.

* `pieceWords`: the words of each piece;
* `pieceWords_squeeze`: blanks may be squeezed before or after the text is cut;
* `splitOn_flatMap_cons`, `pieceWords_intercalate`: pieces that are joined are found again.
-/

namespace MeterCheck.Text

/-- The words of each piece between separators. -/
def pieceWords (sep : Char) (cs : List Char) : List (List (List Char)) :=
  (cs.splitOn sep).map words

/-- The words of a text that starts with one more character of a word. -/
def joinWord (c : Char) : List (List Char) → List (List Char)
  | [] => [[c]]
  | w :: ws => (c :: w) :: ws

section

variable {sep c d : Char}

/-- No piece contains the separator. -/
theorem not_mem_of_mem_splitOn {cs p : List Char} (h : p ∈ cs.splitOn sep) : sep ∉ p := by
  induction cs generalizing p with
  | nil =>
    rw [List.splitOn_nil, List.mem_singleton] at h
    simp [h]
  | cons a cs ih =>
    obtain ⟨q, qs, hq⟩ := List.exists_cons_of_ne_nil (List.splitOn_ne_nil sep cs)
    rw [List.splitOn_cons_eq_if_modifyHead, hq] at h
    split at h
    · rcases List.mem_cons.1 h with rfl | h
      · simp
      · exact ih (hq ▸ h)
    · rename_i hne
      rcases List.mem_cons.1 h with rfl | h
      · rw [List.mem_cons, not_or]
        exact ⟨fun heq => hne (beq_iff_eq.2 heq.symm), ih (hq ▸ List.mem_cons_self)⟩
      · exact ih (hq ▸ List.mem_cons_of_mem q h)

/-- Pieces after separators are found again. The induction is on those after the first. -/
theorem splitOn_flatMap_cons {ts : List (List Char)} (h : ∀ t ∈ ts, sep ∉ t) :
    (ts.flatMap (sep :: ·)).splitOn sep = [] :: ts := by
  have hpieces {t : List Char} (ht : sep ∉ t) :
      (t ++ ts.flatMap (sep :: ·)).splitOn sep = t :: ts := by
    induction ts generalizing t with
    | nil => rw [List.flatMap_nil, List.append_nil, List.splitOn_eq_singleton ht]
    | cons u us ih =>
      obtain ⟨hu, hus⟩ := List.forall_mem_cons.1 h
      rw [List.flatMap_cons, List.cons_append, List.splitOn_append_cons_self_of_not_mem ht,
        ih hus hu]
  exact hpieces List.not_mem_nil

theorem pieceWords_cons_sep (sep : Char) (cs : List Char) :
    pieceWords sep (sep :: cs) = [] :: pieceWords sep cs := by
  rw [pieceWords, List.splitOn_cons_eq_if_modifyHead, if_pos (beq_self_eq_true sep)]
  rfl

theorem pieceWords_cons_of_ne (h : c ≠ sep) (cs : List Char) :
    ∃ p ps, cs.splitOn sep = p :: ps ∧
      pieceWords sep (c :: cs) = words (c :: p) :: ps.map words := by
  obtain ⟨p, ps, hp⟩ := List.exists_cons_of_ne_nil (List.splitOn_ne_nil sep cs)
  refine ⟨p, ps, hp, ?_⟩
  rw [pieceWords, List.splitOn_cons_eq_if_modifyHead, hp, if_neg (by simpa using h)]
  rfl

theorem pieceWords_cons_blank (hsep : ¬ isBlank sep = true) (hc : isBlank c = true)
    (cs : List Char) : pieceWords sep (c :: cs) = pieceWords sep cs := by
  have hne : c ≠ sep := fun h => hsep (h ▸ hc)
  obtain ⟨p, ps, hp, h⟩ := pieceWords_cons_of_ne hne cs
  rw [h, words_cons_blank hc, pieceWords, hp, List.map_cons]

theorem pieceWords_cons_gap (hsep : ¬ isBlank sep = true) (hc : ¬ isBlank c = true)
    (hne : c ≠ sep) (hd : isBlank d = true) (cs : List Char) :
    pieceWords sep (c :: d :: cs) = (pieceWords sep cs).modifyHead ([c] :: ·) := by
  have hdne : ¬ (d == sep) = true := by
    rw [beq_iff_eq]
    exact fun h => hsep (h ▸ hd)
  obtain ⟨p, ps, hp, h⟩ := pieceWords_cons_of_ne hne (d :: cs)
  obtain ⟨q, qs, hq⟩ := List.exists_cons_of_ne_nil (List.splitOn_ne_nil sep cs)
  rw [List.splitOn_cons_eq_if_modifyHead, if_neg hdne, hq] at hp
  cases hp
  rw [h, words_cons_gap hc hd, pieceWords, hq]
  rfl

theorem words_cons_joinWord {p : List Char} (hc : ¬ isBlank c = true)
    (hp : ∀ a, p.head? = some a → ¬ isBlank a = true) : words (c :: p) = joinWord c (words p) := by
  cases p with
  | nil => exact words_singleton hc
  | cons a p =>
    obtain ⟨w, ws, hw, hcons⟩ := words_cons_word hc (hp a rfl) p
    rw [hw, hcons]
    rfl

theorem pieceWords_cons_word (hc : ¬ isBlank c = true) (hne : c ≠ sep)
    (hd : ¬ isBlank d = true) (cs : List Char) :
    pieceWords sep (c :: d :: cs) = (pieceWords sep (d :: cs)).modifyHead (joinWord c) := by
  obtain ⟨p, ps, hp, h⟩ := pieceWords_cons_of_ne hne (d :: cs)
  have hhead : ∀ a, p.head? = some a → ¬ isBlank a = true := by
    intro a ha
    obtain ⟨q, qs, hq⟩ := List.exists_cons_of_ne_nil (List.splitOn_ne_nil sep cs)
    rw [List.splitOn_cons_eq_if_modifyHead, hq] at hp
    split at hp
    · cases hp
      cases ha
    · cases hp
      cases ha
      exact hd
  rw [h, words_cons_joinWord hc hhead, pieceWords, hp]
  rfl

/-- The first character of a squeezed text. -/
theorem squeeze_cons_of_not_blank (hc : ¬ isBlank c = true) (cs : List Char) :
    ∃ rest, squeeze (c :: cs) = c :: rest := by
  cases cs with
  | nil => exact ⟨[], squeeze_singleton hc⟩
  | cons d cs =>
    by_cases hd : isBlank d = true
    · rw [squeeze_cons_gap hc hd]
      split
      · exact ⟨[], rfl⟩
      · exact ⟨_, rfl⟩
    · exact ⟨_, squeeze_cons_word hc hd cs⟩

/-- Blanks may be squeezed before or after a text is cut at a separator. -/
theorem pieceWords_squeeze (hsep : ¬ isBlank sep = true) (cs : List Char) :
    pieceWords sep (squeeze cs) = pieceWords sep cs := by
  induction cs using words_induction with
  | nil => rfl
  | blank c cs hc ih => rw [squeeze_cons_blank hc, ih, pieceWords_cons_blank hsep hc]
  | last c hc => rw [squeeze_singleton hc]
  | gap c d cs hc hd ih =>
    have hspace : pieceWords sep (c :: ' ' :: squeeze cs) = pieceWords sep (c :: d :: cs) := by
      by_cases hne : c = sep
      · subst hne
        rw [pieceWords_cons_sep, pieceWords_cons_sep, pieceWords_cons_blank hsep (by decide),
          pieceWords_cons_blank hsep hd, ih]
      · rw [pieceWords_cons_gap hsep hc hne (by decide), pieceWords_cons_gap hsep hc hne hd, ih]
    rw [squeeze_cons_gap hc hd]
    split
    · rename_i hwords
      have hnil : squeeze cs = [] := by rw [squeeze, hwords]; rfl
      rw [← hspace, hnil]
      by_cases hne : c = sep
      · subst hne
        rw [pieceWords_cons_sep, pieceWords_cons_sep, pieceWords_cons_blank hsep (by decide)]
      · rw [pieceWords_cons_gap hsep hc hne (by decide), pieceWords, List.splitOn_eq_singleton]
        · exact congrArg (fun ws => [ws]) (words_singleton hc)
        · simpa using Ne.symm hne
    · exact hspace
  | word c d cs hc hd ih =>
    obtain ⟨rest, hrest⟩ := squeeze_cons_of_not_blank hd cs
    rw [squeeze_cons_word hc hd, hrest]
    rw [hrest] at ih
    by_cases hne : c = sep
    · subst hne
      rw [pieceWords_cons_sep, pieceWords_cons_sep, ih]
    · rw [pieceWords_cons_word hc hne hd, pieceWords_cons_word hc hne hd, ih]

theorem mem_intercalate {sep : List Char} {ts : List (List Char)}
    (h : c ∈ sep.intercalate ts) : c ∈ sep ∨ ∃ t ∈ ts, c ∈ t := by
  induction ts with
  | nil => cases h
  | cons t ts ih =>
    cases ts with
    | nil =>
      rw [List.intercalate_singleton] at h
      exact .inr ⟨t, List.mem_cons_self, h⟩
    | cons u us =>
      rw [List.intercalate_cons_cons, List.append_assoc, List.mem_append, List.mem_append] at h
      rcases h with h | h | h
      · exact .inr ⟨t, List.mem_cons_self, h⟩
      · exact .inl h
      · exact (ih h).imp_right fun ⟨v, hv, hc⟩ => ⟨v, List.mem_cons_of_mem t hv, hc⟩

/-- Pieces that are joined by a separator and a space are found again. -/
theorem pieceWords_intercalate (hsep : ¬ isBlank sep = true) {ts : List (List Char)}
    (hne : ts ≠ []) (h : ∀ t ∈ ts, sep ∉ t) :
    pieceWords sep ([sep, ' '].intercalate ts) = ts.map words := by
  induction ts with
  | nil => exact absurd rfl hne
  | cons t ts ih =>
    have ht := h t List.mem_cons_self
    cases ts with
    | nil =>
      rw [List.intercalate_singleton, pieceWords, List.splitOn_eq_singleton ht]
    | cons u us =>
      have hrest := ih (List.cons_ne_nil u us) fun v hv => h v (List.mem_cons_of_mem t hv)
      rw [List.intercalate_cons_cons, List.append_assoc, List.cons_append, pieceWords,
        List.splitOn_append_cons_self_of_not_mem ht, List.map_cons, List.map_cons, ← hrest]
      exact congrArg (words t :: ·) (pieceWords_cons_blank hsep (by decide) _)

end

end MeterCheck.Text
