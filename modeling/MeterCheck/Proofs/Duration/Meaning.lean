import MeterCheck.Proofs.Duration.Decode
import MeterCheck.Proofs.Duration.NoteValue

/-!
# What a written duration means

* `Json.meaning`: the length of a duration, read off the document by the rules of the notation;
* `Json.meaning_array_concat`: a list means what its last item means;
* `Piece.value_ofNormal`: a piece is classified by the rule that applies to it;
* `Duration.read_meaning`: every sound value is read as a duration of that length;
* `Json.meaning_beats_of_fits`: it is the rational length, if no sum leaves a word.
-/

namespace MeterCheck

open Beats (ofRat toRat)

/-! ## The rules -/

/-- So many times a length in the table. -/
def Value.times (n : Nat) (unit : List Char) : Value :=
  match noteValue? (String.ofList unit) with
  | some a => ⟨ofRat (n * toRat a), true⟩
  | none => .unknown

/-- The rule for `multiplier * base`. -/
def productMeaning (multiplier base : List Char) : Value :=
  match Text.unsigned32? (Text.trim multiplier) with
  | some n => .times n (Text.trim base)
  | none => .unknown

/-- The rules for a text without an asterisk: a number word and a unit, or a name. -/
def wordsMeaning (p : List Char) : Value :=
  match Text.words p with
  | first :: unit :: _ =>
    match NumberWord.ofText? (String.ofList first) with
    | some w => .times w.value unit
    | none => .ofOption (noteValue? (String.ofList p))
  | _ => .ofOption (noteValue? (String.ofList p))

/-- What may stand between two commas of a normal text. -/
def pieceMeaning (p : List Char) : Value :=
  if p.all Text.isBlank then .unknown
  else
    match p.splitOn '*' with
    | multiplier :: base :: _ => productMeaning multiplier base
    | _ => wordsMeaning p

/-- Several pieces are added from left to right, and have to be known one and all. -/
def textMeaning (cs : List Char) : Value :=
  match (normalize cs).splitOn ',' with
  | [p] => pieceMeaning p
  | ps =>
    ⟨(ps.map fun p => (pieceMeaning p).beats).foldl (· + ·) Beats.zero,
      ps.all fun p => (pieceMeaning p).recognized⟩

namespace Json

mutual

/-- Only texts name lengths, and only the last item of a list counts. -/
def meaning : Json → Value
  | .string s => textMeaning s.toList
  | .array items => lastMeaning items
  | _ => .unknown

def lastMeaning : List Json → Value
  | [] => .unknown
  | [v] => v.meaning
  | _ :: v :: rest => lastMeaning (v :: rest)

end

/-- Whatever the items before it are. -/
theorem meaning_array_concat (items : List Json) (v : Json) :
    (array (items ++ [v])).meaning = v.meaning := by
  rw [meaning]
  induction items with
  | nil => rw [List.nil_append, lastMeaning]
  | cons w items ih =>
    cases items with
    | nil => rw [List.singleton_append, lastMeaning, lastMeaning]
    | cons u items => rwa [List.cons_append, List.cons_append, lastMeaning]

end Json

/-! ## Pieces -/

/-- A multiplier is small enough for the product to be exact. -/
theorem ofOption_multiple? {n : Nat} (hn : n < 2 ^ 32) (unit : List Char) :
    Value.ofOption (multiple? n (String.ofList unit)) = .times n unit := by
  have hexact := Checked.multiple_eq_of_checked (Checked.multiple_eq hn (String.ofList unit))
  unfold Value.times
  split
  · rename_i a ha
    rw [hexact, lengthOf, multiple?, ha]
    rfl
  · rename_i hnone
    rw [multiple?, hnone]
    rfl

theorem pieceMeaning_of_star {left : List Char} (hleft : '*' ∉ left) (right : List Char) :
    pieceMeaning (left ++ '*' :: right) =
      productMeaning left (right.takeWhile (· != '*')) := by
  have hblank : ¬ (left ++ '*' :: right).all Text.isBlank = true := by
    intro hall
    have hstar := List.all_eq_true.1 hall '*' (by simp)
    exact absurd hstar (by decide)
  obtain ⟨rest, hrest⟩ := splitOn_head right '*'
  rw [pieceMeaning, if_neg hblank, List.splitOn_append_cons_self_of_not_mem hleft, hrest]

theorem pieceMeaning_of_words {p : List Char} (hblank : ¬ p.all Text.isBlank = true)
    (h : '*' ∉ p) : pieceMeaning p = wordsMeaning p := by
  rw [pieceMeaning, if_neg hblank, List.splitOn_eq_singleton h]

theorem wordsMeaning_trim (p : List Char) : wordsMeaning (Text.trim p) = wordsMeaning p := by
  rw [wordsMeaning, wordsMeaning, Text.words_trim, noteValue?_trim]

theorem trim_takeWhile_append {after : List Char} (hafter : ∀ c ∈ after, Text.isBlank c = true)
    (right : List Char) : Text.trim ((right ++ after).takeWhile (· != '*')) =
      Text.trim (right.takeWhile (· != '*')) := by
  have hstar : '*' ∉ after := by
    intro hmem
    exact absurd (hafter '*' hmem) (by decide)
  by_cases h : '*' ∈ right
  · obtain ⟨base, rest, rfl, hbase⟩ := List.eq_append_cons_of_mem h
    rw [List.append_assoc, List.cons_append, takeWhile_append_sep hbase,
      takeWhile_append_sep hbase]
  · have hboth : '*' ∉ right ++ after := by
      rw [List.mem_append]
      exact not_or.2 ⟨h, hstar⟩
    rw [takeWhile_of_not_mem h, takeWhile_of_not_mem hboth, Text.trim_append_blanks hafter]

/-- Blanks around a piece do not matter. -/
theorem pieceMeaning_trim (p : List Char) : pieceMeaning (Text.trim p) = pieceMeaning p := by
  by_cases hstar : '*' ∈ p
  · obtain ⟨before, after, hsplit, hbefore, hafter⟩ := Text.trim_split p
    obtain ⟨left, right, htrim, hleft⟩ :=
      List.eq_append_cons_of_mem (Text.mem_trim hstar (by decide))
    have hbefore' : '*' ∉ before ++ left := by
      rw [List.mem_append]
      exact not_or.2 ⟨fun hmem => absurd (hbefore '*' hmem) (by decide), hleft⟩
    have hp : p = (before ++ left) ++ '*' :: (right ++ after) := by
      rw [hsplit, htrim]
      simp
    rw [htrim, hp, pieceMeaning_of_star hleft, pieceMeaning_of_star hbefore', productMeaning,
      productMeaning, Text.trim_blanks_append hbefore, trim_takeWhile_append hafter]
  · have hsub := (Text.trim_isInfix p).subset
    have hstar' : '*' ∉ Text.trim p := fun hmem => hstar (hsub hmem)
    by_cases hall : p.all Text.isBlank = true
    · have hall' : (Text.trim p).all Text.isBlank = true := by
        rw [List.all_eq_true] at hall ⊢
        exact fun c hc => hall c (hsub hc)
      rw [pieceMeaning, pieceMeaning, if_pos hall, if_pos hall']
    · have hall' : ¬ (Text.trim p).all Text.isBlank = true := by
        rw [List.all_eq_true] at hall ⊢
        intro htrim
        apply hall
        intro c hc
        by_contra hblank
        exact hblank (htrim c (Text.mem_trim hc hblank))
      rw [pieceMeaning_of_words hall' hstar', pieceMeaning_of_words hall hstar,
        wordsMeaning_trim]

namespace Piece

theorem value_ofProduct {cs : List Char} (h : '*' ∈ cs) :
    (ofProduct cs).value = pieceMeaning cs := by
  obtain ⟨left, right, rfl, hleft⟩ := List.eq_append_cons_of_mem h
  rw [pieceMeaning_of_star hleft, productMeaning]
  simp only [ofProduct, takeWhile_append_sep hleft, dropWhile_append_sep hleft, List.tail_cons]
  cases hn : Text.unsigned32? (Text.trim left) with
  | some n =>
    simp only [value]
    exact ofOption_multiple? (Text.unsigned32?_lt hn) _
  | none =>
    simp only [value]
    rw [noteValue?_eq_none h (by decide) (by decide)]
    rfl

theorem value_ofWords {cs : List Char} (h : Normal cs) (hne : cs ≠ []) :
    (ofWords cs).value = wordsMeaning cs := by
  rw [ofWords, wordsMeaning, Text.splitOn_space h.trimmed h.tidy hne]
  rcases Text.words cs with _ | ⟨first, _ | ⟨unit, rest⟩⟩
  · simp only [value]
  · simp only [value]
  · dsimp only
    cases NumberWord.ofText? (String.ofList first) with
    | none => simp only [value]
    | some w =>
      have hlt : w.value < 2 ^ 32 := by cases w <;> decide
      simp only [value]
      exact ofOption_multiple? hlt unit

/-- The rules that a normal piece is classified by are the ones that apply to it. -/
theorem value_ofNormal {cs : List Char} (h : Normal cs) :
    (ofNormal cs).value = pieceMeaning cs := by
  cases cs with
  | nil => rfl
  | cons c cs =>
    have hblank : ¬ (c :: cs).all Text.isBlank = true := by
      intro hall
      exact h.trimmed.head c rfl (List.all_eq_true.1 hall c List.mem_cons_self)
    rw [ofNormal, if_neg (by simp)]
    split
    · rename_i hstar
      exact value_ofProduct (List.contains_iff_mem.1 hstar)
    · rename_i hstar
      rw [value_ofWords h (List.cons_ne_nil c cs), pieceMeaning_of_words hblank]
      exact fun hmem => hstar (List.contains_iff_mem.2 hmem)

/-- The same for a part of a normal text, which may have a blank at either end. -/
theorem value_ofNormal_of_part {cs p : List Char} (h : Normal cs) (hp : p <:+: cs) :
    (ofNormal (normalize p)).value = pieceMeaning p := by
  rw [normalize_of_part h hp, value_ofNormal (h.trim_of_part hp), pieceMeaning_trim]

end Piece

namespace Duration

theorem value_classify (text : String) : (classify text).value = textMeaning text.toList := by
  have hnormal := normal_normalize text.toList
  have hpiece : ∀ p ∈ (normalize text.toList).splitOn ',',
      (Piece.ofNormal (normalize p)).value = pieceMeaning p :=
    fun p hp => Piece.value_ofNormal_of_part hnormal (infix_of_mem_splitOn hp)
  have hne := List.splitOn_ne_nil ',' (normalize text.toList)
  rw [textMeaning]
  simp only [classify]
  rcases hpieces : (normalize text.toList).splitOn ',' with _ | ⟨p, _ | ⟨q, ps⟩⟩
  · exact absurd hpieces hne
  · have hp : [','].intercalate ((normalize text.toList).splitOn ',') = normalize text.toList :=
      List.intercalate_splitOn ','
    rw [hpieces, List.intercalate_singleton] at hp
    simp only [value]
    rw [hp, Piece.value_ofNormal hnormal]
  · have hvalues : ((p :: q :: ps).map fun p => Piece.ofNormal (normalize p)).map Piece.value =
        (p :: q :: ps).map pieceMeaning := by
      rw [List.map_map, ← hpieces]
      exact List.map_congr_left hpiece
    simp only [value]
    rw [hvalues, Value.sum, Checked.foldl_value_add, List.map_map, List.all_map, Bool.true_and]
    rfl

mutual

theorem value_ofJson : ∀ v : Json, (ofJson v).value = v.meaning
  | .string s => by
    rw [ofJson, Json.meaning]
    exact value_classify s
  | .array [] => by
    rw [ofJson, Json.meaning, Json.lastMeaning]
    rfl
  | .array (v :: rest) => by
    rw [ofJson, value, Json.meaning, ← ofItems]
    exact lastValue_ofItems (v :: rest)
  | .null => by
    simp only [ofJson, Json.meaning, blank, value, Piece.value]
  | .bool b => value_ofScalar_bool b
  | .int n => value_ofScalar_int n
  | .double x => value_ofScalar_double x
  | .object members => value_ofScalar_object members
  | .flawed => by decide +kernel

theorem lastValue_ofItems : ∀ items : List Json,
    lastValue (ofItems items) = Json.lastMeaning items
  | [] => by
    rw [ofItems, lastValue, Json.lastMeaning]
  | [v] => by
    rw [ofItems, ofItems, lastValue, Json.lastMeaning]
    exact value_ofJson v
  | _ :: v :: rest => by
    rw [ofItems, ofItems, lastValue, Json.lastMeaning, ← ofItems]
    exact lastValue_ofItems (v :: rest)

end

example :
    (Json.array [.string "whole", .string " Half, TWO  eigths"]).meaning = ⟨⟨3, 1⟩, true⟩ := by
  decide +kernel

end Duration

/-- The sums of the rules are those of the rationals, as long as no partial sum leaves a word. -/
theorem Json.meaning_beats_of_fits {v : Json} (h : (Duration.ofJson v).Fits) :
    v.meaning.beats = ofRat (Duration.ofJson v).length := by
  have hvalue := (Checked.value_eq_some_iff (Duration.wordSized_ofJson v)).2 ⟨h, rfl⟩
  rw [← Duration.value_ofJson, Checked.value_eq_of_checked hvalue]

end MeterCheck
