import MeterCheck.Binary64.Decimal
import MeterCheck.Proofs.Text.Numeral

/-!
# The characters of doubles
-/

namespace MeterCheck.Binary64

open Text (numberChars)

variable {c : Char} {digits : List Char} {k : Int}

theorem mem_scientific (h : c ∈ scientific digits k) :
    c ∈ digits ∨ c ∈ numberChars := by
  unfold scientific at h
  rcases List.mem_append.1 h with h | h
  · split at h
    · exact .inl h
    · simp only [List.mem_cons] at h
      rcases h with rfl | rfl | h
      · exact .inl List.mem_cons_self
      · exact .inr (by decide)
      · exact .inl (List.mem_cons_of_mem _ h)
    · cases h
  · rcases List.mem_cons.1 h with rfl | h
    · exact .inr (by decide)
    · rcases List.mem_cons.1 h with rfl | h
      · split <;> exact .inr (by decide)
      · exact .inr (Text.isDigit_of_mem_toDigits h).mem_numberChars

theorem mem_positional (h : c ∈ positional digits k) : c ∈ digits ∨ c ∈ numberChars := by
  unfold positional at h
  split at h
  · simp only [List.cons_append, List.mem_cons, List.mem_append] at h
    rcases h with rfl | rfl | h | h
    · exact .inr (by decide)
    · exact .inr (by decide)
    · rw [List.eq_of_mem_replicate h]
      exact .inr (by decide)
    · exact .inl h
  · simp only [List.mem_cons, List.mem_append] at h
    rcases h with (h | h) | rfl | h
    · exact .inl (List.mem_of_mem_take h)
    · rw [List.eq_of_mem_replicate h]
      exact .inr (by decide)
    · exact .inr (by decide)
    · split at h
      · rw [List.mem_singleton.1 h]
        exact .inr (by decide)
      · exact .inl (List.mem_of_mem_drop h)

/-- The text without its sign. -/
def body (x : Binary64) : List Char :=
  if x.mantissa = 0 then ['0', '.', '0']
  else if isPositional x.shortest.exponent then
    positional (Nat.toDigits 10 x.shortest.digits) x.shortest.exponent
  else scientific (Nat.toDigits 10 x.shortest.digits) x.shortest.exponent

theorem text_eq (x : Binary64) : x.text = (if x.negative then ['-'] else []) ++ x.body := by
  rw [text]
  cases x.negative <;> rfl

theorem mem_numberChars_of_mem_body {x : Binary64} (h : c ∈ x.body) : c ∈ numberChars := by
  have hdigits (n : Nat) (h : c ∈ Nat.toDigits 10 n ∨ c ∈ numberChars) : c ∈ numberChars :=
    h.elim (fun h => (Text.isDigit_of_mem_toDigits h).mem_numberChars) id
  unfold body at h
  split at h
  · have hall : (['0', '.', '0'].all fun c => c ∈ numberChars) = true := by decide
    exact of_decide_eq_true (List.all_eq_true.1 hall c h)
  · split at h
    · exact hdigits _ (mem_positional h)
    · exact hdigits _ (mem_scientific h)

theorem mem_numberChars_of_mem_text (x : Binary64) (h : c ∈ x.text) : c ∈ numberChars := by
  rw [text_eq] at h
  rcases List.mem_append.1 h with h | h
  · split at h
    · rw [List.mem_singleton.1 h]
      decide
    · cases h
  · exact mem_numberChars_of_mem_body h

theorem body_ne_nil (x : Binary64) : x.body ≠ [] := by
  unfold body
  split
  · simp
  · split
    · unfold positional
      split <;> simp
    · simp [scientific]

theorem text_ne_nil (x : Binary64) : x.text ≠ [] := by
  simp [text_eq, body_ne_nil]

end MeterCheck.Binary64
