import MeterCheck.Proofs.Beats.Rational
import MeterCheck.Proofs.Text.Numeral
import MeterCheck.Proofs.Text.Pieces
import MeterCheck.Proofs.TimeSignature.Resolve

/-!
# The texts of time signatures

* `Halves`, `Side`: two integers around the only slash of a text, with blanks around each;
* `Written`: the texts of a signature;
* `Refused`: the first check that any other text fails;
* `resolve_text_iff`: exactly these texts resolve, and exactly this fault is found in the others.
-/

namespace MeterCheck

namespace Text

theorem Spells.not_blank {cs : List Char} {n : Int} (h : Spells cs n) :
    ∀ c ∈ cs, ¬ isBlank c = true := by
  have hdigit {c : Char} (hc : IsDigit c) : ¬ isBlank c = true := by
    have hlow : 48 ≤ c.toNat := hc.1
    have hhigh : c.toNat ≤ 57 := hc.2
    simp only [isBlank, Bool.or_eq_true, Bool.and_eq_true, decide_eq_true_eq, beq_iff_eq]
    omega
  cases h with
  | bare _ digits => exact fun c hc => hdigit (digits c hc)
  | plus _ digits => exact List.forall_mem_cons.2 ⟨by decide, fun c hc => hdigit (digits c hc)⟩
  | minus _ digits => exact List.forall_mem_cons.2 ⟨by decide, fun c hc => hdigit (digits c hc)⟩

theorem Spells.trim_eq {cs : List Char} {n : Int} (h : Spells cs n) : trim cs = cs := by
  apply trim_of_trimmed
  constructor
  · exact fun c hc => h.not_blank c (List.mem_of_head? hc)
  · exact fun c hc => h.not_blank c (List.mem_of_getLast? hc)

end Text

namespace TimeSignature

/-! ## The grammar -/

/-- A text with exactly one slash, and what stands before and behind it. -/
structure Halves (text : String) (left right : List Char) : Prop where
  once : text.toList.count '/' = 1
  split : text.toList = left ++ '/' :: right

/-- An integer, with any blanks around it. -/
inductive Side : List Char → Int → Prop where
  | intro {before core after : List Char} {n : Int}
      (before_blank : ∀ c ∈ before, Text.isBlank c = true) (spells : Text.Spells core n)
      (after_blank : ∀ c ∈ after, Text.isBlank c = true) : Side (before ++ core ++ after) n

/-- The numbers that may be a part of a signature. -/
def IsPart (n : Int) : Prop := 1 ≤ n ∧ n ≤ 4294967295

/-- A text of the signature. -/
inductive Written (s : TimeSignature) (text : String) : Prop where
  | intro {left right : List Char} (halves : Halves text left right)
      (numerator : Side left s.numerator) (denominator : Side right s.denominator)
      (numerator_part : IsPart s.numerator) (denominator_part : IsPart s.denominator) :
      Written s text

/-- The first check that a text fails: its slashes, its two integers, and the two ranges. -/
inductive Refused (text : String) : SignatureFault → Prop where
  | slashes (many : text.toList.count '/' ≠ 1) : Refused text .notTwoParts
  | left {left right : List Char} (halves : Halves text left right)
      (none : ∀ n, Side left n → ¬ IsWord n) : Refused text (.notInteger .numerator)
  | right {left right : List Char} {n : Int} (halves : Halves text left right)
      (first : Side left n) (first_word : IsWord n) (none : ∀ d, Side right d → ¬ IsWord d) :
      Refused text (.notInteger .denominator)
  | numerator {left right : List Char} {n d : Int} (halves : Halves text left right)
      (first : Side left n) (first_word : IsWord n) (second : Side right d)
      (second_word : IsWord d) (range : ¬ IsPart n) : Refused text (.notPositive .numerator n)
  | denominator {left right : List Char} {n d : Int} (halves : Halves text left right)
      (first : Side left n) (second : Side right d) (second_word : IsWord d)
      (first_range : IsPart n) (range : ¬ IsPart d) : Refused text (.notPositive .denominator d)

variable {text : String} {left right cs : List Char} {n d : Int} {s : TimeSignature}
  {fault : SignatureFault}

/-! ## The two sides -/

theorem splitOn_eq_iff : text.toList.splitOn '/' = [left, right] ↔ Halves text left right := by
  constructor
  · intro h
    have hjoin : ['/'].intercalate (text.toList.splitOn '/') = text.toList :=
      List.intercalate_splitOn '/'
    rw [h, List.intercalate_cons_cons, List.intercalate_singleton] at hjoin
    have hleft : '/' ∉ left := Text.not_mem_of_mem_splitOn (h ▸ List.mem_cons_self)
    have hright : '/' ∉ right :=
      Text.not_mem_of_mem_splitOn (h ▸ List.mem_cons_of_mem _ List.mem_cons_self)
    have hsplit : text.toList = left ++ '/' :: right := by simpa using hjoin.symm
    refine ⟨?_, hsplit⟩
    rw [hsplit, List.count_append, List.count_cons_self, List.count_eq_zero_of_not_mem hleft,
      List.count_eq_zero_of_not_mem hright]
  · rintro ⟨honce, hsplit⟩
    rw [hsplit, List.count_append, List.count_cons_self] at honce
    have hleft : '/' ∉ left := List.count_eq_zero.1 (by omega)
    have hright : '/' ∉ right := List.count_eq_zero.1 (by omega)
    rw [hsplit, List.splitOn_append_cons_self_of_not_mem hleft, List.splitOn_eq_singleton hright]

theorem Halves.unique {left' right' : List Char} (h : Halves text left right)
    (h' : Halves text left' right') : left' = left ∧ right' = right := by
  have hsame := (splitOn_eq_iff.2 h').symm.trans (splitOn_eq_iff.2 h)
  simpa using hsame

theorem exists_halves (h : text.toList.count '/' = 1) : ∃ left right, Halves text left right := by
  have hmem : '/' ∈ text.toList := List.count_pos_iff.1 (by omega)
  obtain ⟨left, right, hsplit⟩ := List.append_of_mem hmem
  exact ⟨left, right, h, hsplit⟩

theorem side_iff : Side cs n ↔ Text.Spells (Text.trim cs) n := by
  constructor
  · rintro ⟨hbefore, hspells, hafter⟩
    rw [Text.trim_append_blanks hafter, Text.trim_blanks_append hbefore, hspells.trim_eq]
    exact hspells
  · intro h
    obtain ⟨before, after, hsplit, hbefore, hafter⟩ := Text.trim_split cs
    rw [hsplit]
    exact .intro hbefore h hafter

theorem readPart_eq_ok {part : SignaturePart} :
    readPart part cs = .ok n ↔ Side cs n ∧ IsWord n := by
  rw [side_iff, ← isSigned64_iff, ← Text.signed64?_eq_some_iff, readPart]
  split
  · rename_i hvalue
    rw [hvalue, Except.ok.injEq, Option.some_inj]
  · rename_i hnone
    simp [hnone]

theorem readPart_eq_error {part : SignaturePart} :
    readPart part cs = .error fault ↔
      (∀ n, Side cs n → ¬ IsWord n) ∧ fault = .notInteger part := by
  have hnone : (∀ n, Side cs n → ¬ IsWord n) ↔ ∀ n, readPart part cs ≠ .ok n := by
    simp only [ne_eq, readPart_eq_ok, not_and]
  rw [hnone, readPart]
  split
  · simp
  · simp [eq_comm]

/-! ## The two ranges -/

theorem IsPart.isWord (h : IsPart n) : IsWord n := by
  obtain ⟨_, _⟩ := h
  constructor <;> omega

theorem checkPart_eq_error {part : SignaturePart} :
    part.check n = .error fault ↔ ¬ IsPart n ∧ fault = .notPositive part n := by
  unfold SignaturePart.check IsPart
  split
  · simp only [reduceCtorEq, false_iff]
    omega
  · rw [Except.error.injEq, eq_comm, iff_and_self]
    omega

theorem check_eq_ok_iff : check n d = .ok s ↔
    (n = s.numerator ∧ d = s.denominator) ∧ IsPart s.numerator ∧ IsPart s.denominator := by
  rw [check_eq_ok, and_assoc]
  refine and_congr_right fun _ => and_congr_right fun _ => ?_
  unfold IsPart
  constructor
  · rintro ⟨_, _, _, _⟩
    omega
  · intro h
    constructor <;> omega

theorem check_eq_error : check n d = .error fault ↔
    ¬ IsPart n ∧ fault = .notPositive .numerator n ∨
      IsPart n ∧ ¬ IsPart d ∧ fault = .notPositive .denominator d := by
  have hok : (∃ k, SignaturePart.numerator.check n = .ok k) ↔ IsPart n := by
    simp only [SignaturePart.check_eq_ok, IsPart]
    constructor
    · rintro ⟨k, rfl, _, _⟩
      omega
    · intro _
      exact ⟨n.toNat, by omega, by omega, by omega⟩
  have hrest (k : Nat) : (do
      let d ← SignaturePart.denominator.check d
      return (⟨k, d⟩ : TimeSignature)) = .error fault ↔
        ¬ IsPart d ∧ fault = .notPositive .denominator d := by
    rw [bind_eq_error, checkPart_eq_error, or_iff_left]
    rintro ⟨_, _, ⟨⟩⟩
  rw [check, bind_eq_error, checkPart_eq_error]
  simp only [hrest, ← hok, exists_and_right]

/-! ## Whole texts -/

theorem parse_of_halves (h : Halves text left right) : parse text = (do
    let n ← readPart .numerator left
    let d ← readPart .denominator right
    check n d) := by
  rw [parse, splitOn_eq_iff.2 h]

theorem parse_of_slashes (h : text.toList.count '/' ≠ 1) :
    parse text = .error .notTwoParts := by
  unfold parse
  split
  · rename_i hsplit
    exact absurd (splitOn_eq_iff.1 hsplit).once h
  · rfl

theorem parse_eq_ok_iff : parse text = .ok s ↔ s.Written text := by
  by_cases hslashes : text.toList.count '/' = 1
  · obtain ⟨left, right, h⟩ := exists_halves hslashes
    simp only [parse_of_halves h, bind_eq_ok, readPart_eq_ok, check_eq_ok_iff]
    constructor
    · rintro ⟨n, ⟨hleft, -⟩, d, ⟨hright, -⟩, ⟨rfl, rfl⟩, hn, hd⟩
      exact .intro h hleft hright hn hd
    · rintro ⟨h', hleft, hright, hn, hd⟩
      obtain ⟨rfl, rfl⟩ := h.unique h'
      exact ⟨_, ⟨hleft, hn.isWord⟩, _, ⟨hright, hd.isWord⟩, ⟨rfl, rfl⟩, hn, hd⟩
  · rw [parse_of_slashes hslashes]
    simp only [reduceCtorEq, false_iff]
    rintro ⟨h, -, -, -, -⟩
    exact hslashes h.once

theorem parse_eq_error_iff : parse text = .error fault ↔ Refused text fault := by
  by_cases hslashes : text.toList.count '/' = 1
  · obtain ⟨left, right, h⟩ := exists_halves hslashes
    simp only [parse_of_halves h, bind_eq_error, readPart_eq_ok, readPart_eq_error,
      check_eq_error]
    constructor
    · rintro (⟨hnone, rfl⟩ | ⟨n, ⟨hleft, hn⟩, ⟨hnone, rfl⟩ | ⟨d, ⟨hright, hd⟩,
        ⟨hrange, rfl⟩ | ⟨hpart, hrange, rfl⟩⟩⟩)
      · exact .left h hnone
      · exact .right h hleft hn hnone
      · exact .numerator h hleft hn hright hd hrange
      · exact .denominator h hleft hright hd hpart hrange
    · intro hrefused
      cases hrefused with
      | slashes many => exact absurd hslashes many
      | left h' none =>
        obtain ⟨rfl, rfl⟩ := h.unique h'
        exact .inl ⟨none, rfl⟩
      | right h' first first_word none =>
        obtain ⟨rfl, rfl⟩ := h.unique h'
        exact .inr ⟨_, ⟨first, first_word⟩, .inl ⟨none, rfl⟩⟩
      | numerator h' first first_word second second_word range =>
        obtain ⟨rfl, rfl⟩ := h.unique h'
        exact .inr ⟨_, ⟨first, first_word⟩, .inr ⟨_, ⟨second, second_word⟩,
          .inl ⟨range, rfl⟩⟩⟩
      | denominator h' first second second_word first_range range =>
        obtain ⟨rfl, rfl⟩ := h.unique h'
        exact .inr ⟨_, ⟨first, first_range.isWord⟩, .inr ⟨_, ⟨second, second_word⟩,
          .inr ⟨first_range, range, rfl⟩⟩⟩
  · rw [parse_of_slashes hslashes]
    constructor
    · rintro ⟨⟩
      exact .slashes hslashes
    · intro hrefused
      cases hrefused with
      | slashes => rfl
      | left h' => exact absurd h'.once hslashes
      | right h' => exact absurd h'.once hslashes
      | numerator h' => exact absurd h'.once hslashes
      | denominator h' => exact absurd h'.once hslashes

end TimeSignature

namespace SignatureSpec

/--
**The texts that are signatures.** A text resolves to a signature if and only if it has exactly one
slash, with the numerator before it and the denominator behind it: an optional sign and digits
each, with any blanks around them, for a number from 1 to 4294967295. For any other text the error
quotes the text and tells the first check that it fails.
-/
theorem resolve_text_iff (s : String) :
    (∀ signature, (text s).resolve = .ok signature ↔ signature.Written s) ∧
      ∀ e, (text s).resolve = .error e ↔ e.input = s ∧ TimeSignature.Refused s e.fault := by
  constructor
  · intro signature
    exact resolve_eq_ok.trans TimeSignature.parse_eq_ok_iff
  · intro e
    exact resolve_eq_error.trans (and_congr_right fun _ => TimeSignature.parse_eq_error_iff)

example : (text "\u2003+06 /\t8").resolve = .ok ⟨6, 8⟩ := by
  decide +kernel

example : (text "-3/4294967296").resolve =
    .error ⟨"-3/4294967296", .notPositive .numerator (-3)⟩ := by
  decide +kernel

end SignatureSpec

end MeterCheck
