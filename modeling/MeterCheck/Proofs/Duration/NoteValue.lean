import MeterCheck.Proofs.Binary64.Text
import MeterCheck.Proofs.Duration.Normal
import MeterCheck.Proofs.Json.Tree
import MeterCheck.Duration.Wire

/-!
# What is no name

* `isNameChar`: the characters of the names in the table;
* `noteValue?_eq_none`: any other character, if it is no blank, makes a name unknown;
* `Duration.value_ofScalar`: so no number, truth value or object is worth anything.
-/

namespace MeterCheck

/-- Stands in the name of a note value or in one of its misspellings. -/
def isNameChar (c : Char) : Bool := ('a' ≤ c && c ≤ 'z') || c == '-' || c == '_' || c == ' '

def misspellings : List String :=
  ["eigth", "eigths", "eighths", "sixteenths", "quarters", "halves"]

theorem unitName_cases (name : String) : unitName name = name ∨ name ∈ misspellings := by
  unfold unitName
  split_ifs with height hsixteenth hquarter hhalf
  · right
    rcases height with rfl | rfl | rfl <;> decide
  · subst hsixteenth
    exact .inr (by decide)
  · subst hquarter
    exact .inr (by decide)
  · subst hhalf
    exact .inr (by decide)
  · exact .inl rfl

theorem noteValue?_trim (cs : List Char) :
    noteValue? (String.ofList (Text.trim cs)) = noteValue? (String.ofList cs) := by
  rw [noteValue?, noteValue?, String.toList_ofList, String.toList_ofList,
    Text.trim_of_trimmed (Text.trimmed_trim cs)]

theorem noteValue?_eq_none {cs : List Char} {c : Char} (h : c ∈ cs)
    (hblank : ¬ Text.isBlank c = true) (hname : ¬ isNameChar c = true) :
    noteValue? (String.ofList cs) = none := by
  have hnames : ∀ name ∈ noteValues.map Prod.fst ++ misspellings,
      name.toList.all isNameChar = true := by
    decide +kernel
  cases hvalue : noteValue? (String.ofList cs) with
  | none => rfl
  | some a =>
    have hmem := List.mem_map_of_mem (f := Prod.fst) (Table.mem_of_lookup hvalue)
    have hin : unitName (String.ofList (Text.trim cs)) ∈ noteValues.map Prod.fst := by
      rwa [String.toList_ofList] at hmem
    have hknown : String.ofList (Text.trim cs) ∈ noteValues.map Prod.fst ++ misspellings := by
      rw [List.mem_append]
      rcases unitName_cases (String.ofList (Text.trim cs)) with hsame | hmis
      · exact .inl (hsame ▸ hin)
      · exact .inr hmis
    have hall := hnames _ hknown
    rw [String.toList_ofList] at hall
    exact absurd (List.all_eq_true.1 hall c (Text.mem_trim h hblank)) hname

/-! ## Values that are no texts -/

/-- One of these stands in the text of every number and of every object. -/
def foreignChars : List Char := ['\x7b', '.', '0', '1', '2', '3', '4', '5', '6', '7', '8', '9']

theorem foreignChars_kept :
    (foreignChars.all fun c =>
      !Text.isBlank c && !isNameChar c && Text.lowerChar c == c && c != 'İ') = true := by
  decide +kernel

theorem noteValue?_of_foreign {cs : List Char} {c : Char} (h : c ∈ cs) (hc : c ∈ foreignChars) :
    noteValue? (String.ofList (normalize cs)) = none := by
  have hkept := List.all_eq_true.1 foreignChars_kept c hc
  simp only [Bool.and_eq_true, Bool.not_eq_true', ← Bool.not_eq_true, beq_iff_eq,
    bne_iff_ne] at hkept
  obtain ⟨⟨⟨hblank, hname⟩, hsame⟩, hsingle⟩ := hkept
  exact noteValue?_eq_none (mem_normalize h hblank ⟨hsame, hsingle⟩) hblank hname

theorem digit_foreign {c : Char} (h : Text.IsDigit c) : c ∈ foreignChars :=
  List.mem_cons_of_mem _ (List.mem_cons_of_mem _ h.mem_digits)

theorem toDigits_foreign (n : Nat) : ∃ c ∈ Nat.toDigits 10 n, c ∈ foreignChars := by
  obtain ⟨c, cs, hc⟩ := List.exists_cons_of_ne_nil (Nat.toDigits_ne_nil (b := 10) (n := n))
  have hmem : c ∈ Nat.toDigits 10 n := hc ▸ List.mem_cons_self
  exact ⟨c, hmem, digit_foreign (Text.isDigit_of_mem_toDigits hmem)⟩

theorem ofInt_foreign (n : Int) : ∃ c ∈ (Text.ofInt n).toList, c ∈ foreignChars := by
  obtain ⟨c, hc, hforeign⟩ := toDigits_foreign n.natAbs
  refine ⟨c, ?_, hforeign⟩
  rw [Text.toList_ofInt]
  exact List.mem_append_right _ hc

namespace Binary64

theorem positional_foreign (digits : List Char) (k : Int) :
    ∃ c ∈ positional digits k, c ∈ foreignChars := by
  refine ⟨'.', ?_, by decide⟩
  unfold positional
  split <;> simp

theorem scientific_foreign (digits : List Char) (k : Int) :
    ∃ c ∈ scientific digits k, c ∈ foreignChars := by
  obtain ⟨c, hc, hforeign⟩ := toDigits_foreign k.natAbs
  refine ⟨c, ?_, hforeign⟩
  unfold scientific
  exact List.mem_append_right _ (List.mem_cons_of_mem _ (List.mem_cons_of_mem _ hc))

theorem text_foreign (x : Binary64) : ∃ c ∈ x.text, c ∈ foreignChars := by
  have hbody : ∃ c ∈ x.body, c ∈ foreignChars := by
    unfold body
    split
    · exact ⟨'0', by decide, by decide⟩
    · split
      · exact positional_foreign _ _
      · exact scientific_foreign _ _
  obtain ⟨c, hc, hforeign⟩ := hbody
  refine ⟨c, ?_, hforeign⟩
  rw [text_eq]
  exact List.mem_append_right _ hc

end Binary64

namespace Duration

theorem value_ofScalar_of_foreign {v : Json}
    (h : ∃ c ∈ v.canonical.text.toList, c ∈ foreignChars) : (ofScalar v).value = .unknown := by
  obtain ⟨c, hc, hforeign⟩ := h
  rw [ofScalar, value, Piece.value, noteValue?_of_foreign hc hforeign]
  rfl

theorem value_ofScalar_bool (b : Bool) : (ofScalar (.bool b)).value = .unknown := by
  cases b <;> decide +kernel

theorem value_ofScalar_of_word {v : Json} {cs : List Char} (h : v.canonical.tokens = [.word cs])
    (hforeign : ∃ c ∈ cs, c ∈ foreignChars) : (ofScalar v).value = .unknown := by
  apply value_ofScalar_of_foreign
  rwa [Json.toList_text_of_word h]

theorem value_ofScalar_int (n : Int) : (ofScalar (.int n)).value = .unknown :=
  value_ofScalar_of_word rfl (ofInt_foreign n)

theorem value_ofScalar_double (x : Binary64) : (ofScalar (.double x)).value = .unknown :=
  value_ofScalar_of_word rfl x.text_foreign

theorem value_ofScalar_object (members : List (String × Json)) :
    (ofScalar (.object members)).value = .unknown := by
  refine value_ofScalar_of_foreign ⟨'\x7b', ?_, by decide⟩
  simp [Json.canonical, Json.text, Json.tokens, Json.Token.chars]

end Duration

end MeterCheck
