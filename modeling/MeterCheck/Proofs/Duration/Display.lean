import MeterCheck.Proofs.Duration.Normal
import MeterCheck.Proofs.Text.Numeral
import MeterCheck.Proofs.Text.Pieces
import MeterCheck.Duration.Wire
import Mathlib.Dynamics.FixedPoints.Basic

/-!
# The written form of a duration

* `Piece.Canonical`: what a piece of a text is classified as;
* `Piece.ofNormal_text`: such a piece is found again in its own text, whatever blanks are left
  in it;
* `Duration.classify_text`: a text is classified as its normal written form is, so that the written
  form tells the duration.
-/

namespace MeterCheck

/-- Kept by lower case, and neither a blank nor a sign between the parts of a duration. -/
structure IsPlain (c : Char) : Prop where
  stable : Text.Stable c
  not_blank : ¬ Text.isBlank c = true
  ne_comma : c ≠ ','
  ne_star : c ≠ '*'

/-- The characters of number words. -/
def wordChars : List Char := "abcdefghijklmnopqrstuvwxyz".toList

theorem isPlain_of_all {cs : List Char}
    (hall : (cs.all fun c => Text.lowerChar c == c && c != 'İ' && !Text.isBlank c
      && c != ',' && c != '*') = true) {c : Char} (h : c ∈ cs) : IsPlain c := by
  have hc := List.all_eq_true.1 hall c h
  simp only [Bool.and_eq_true, Bool.not_eq_true', ← Bool.not_eq_true, beq_iff_eq,
    bne_iff_ne] at hc
  obtain ⟨⟨⟨⟨hsame, hsingle⟩, hblank⟩, hcomma⟩, hstar⟩ := hc
  exact ⟨⟨hsame, hsingle⟩, hblank, hcomma, hstar⟩

theorem isPlain_of_mem_wordChars {c : Char} (h : c ∈ wordChars) : IsPlain c :=
  isPlain_of_all (by decide +kernel) h

theorem isPlain_of_mem_numberChars {c : Char} (h : c ∈ Text.numberChars) : IsPlain c :=
  isPlain_of_all (by decide +kernel) h

theorem isPlain_toDigits {n : Nat} {c : Char} (h : c ∈ Nat.toDigits 10 n) : IsPlain c :=
  isPlain_of_mem_numberChars (Text.isDigit_of_mem_toDigits h).mem_numberChars

theorem space_blank : ∀ c ∈ [' '], Text.isBlank c = true := by
  simpa using (by decide : Text.isBlank ' ' = true)

theorem stable_space : Text.Stable ' ' := Text.stable_of_blank (by decide)

theorem stable_comma : Text.Stable ',' := by
  constructor <;> decide +kernel

theorem stable_star : Text.Stable '*' := by
  constructor <;> decide +kernel

namespace NumberWord

theorem ofText?_text (w : NumberWord) : ofText? w.text = some w := by
  cases w <;> decide

theorem text_of_ofText? {name : String} {w : NumberWord} (h : ofText? name = some w) :
    w.text = name := by
  have hname := List.find?_some h
  exact of_decide_eq_true hname

theorem text_ne_nil (w : NumberWord) : w.text.toList ≠ [] := by
  cases w <;> decide

theorem isPlain_text {w : NumberWord} {c : Char} (h : c ∈ w.text.toList) : IsPlain c := by
  have hletters : (w.text.toList.all fun c => c ∈ wordChars) = true := by
    cases w <;> decide
  exact isPlain_of_mem_wordChars (of_decide_eq_true (List.all_eq_true.1 hletters c h))

end NumberWord

namespace Piece

variable {cs left right base unit : List Char} {n : Nat} {p : Piece}

theorem ofNormal_of_star (h : '*' ∉ left) (right : List Char) :
    ofNormal (left ++ '*' :: right) =
      match Text.unsigned32? (Text.trim left) with
      | some n => .product n (String.ofList (Text.trim (right.takeWhile (· != '*'))))
      | none => .name (String.ofList (left ++ '*' :: right)) := by
  have hne : ¬ (left ++ '*' :: right).isEmpty = true := by simp
  have hstar : (left ++ '*' :: right).contains '*' = true := by simp
  rw [ofNormal, if_neg hne, if_pos hstar]
  cases hn : Text.unsigned32? (Text.trim left) <;>
    simp only [ofProduct, takeWhile_append_sep h, dropWhile_append_sep h, List.tail_cons, hn]

theorem ofNormal_of_words (hne : cs ≠ []) (h : '*' ∉ cs) : ofNormal cs = ofWords cs := by
  rw [ofNormal, if_neg (by simpa using hne), if_neg (by simpa using h)]

/-! ## Texts of pieces -/

theorem text_product (n : Nat) (base : List Char) :
    (product n (String.ofList base)).text.toList =
      Nat.toDigits 10 n ++ ' ' :: '*' :: ' ' :: base := by
  change (Nat.repr n ++ " * " ++ String.ofList base).toList = _
  rw [Nat.repr_eq_ofList_toDigits]
  simp

theorem text_count (w : NumberWord) (unit : List Char) :
    (count w (String.ofList unit)).text.toList = w.text.toList ++ ' ' :: unit := by
  simp [text]

/-- Only the space after the asterisk is squeezed, if there is no base. -/
theorem squeeze_text_product (hbase : Normal base) (hstar : '*' ∉ base) :
    ∃ rest, Text.squeeze (product n (String.ofList base)).text.toList =
        (Nat.toDigits 10 n ++ [' ']) ++ '*' :: rest ∧
      '*' ∉ rest ∧ Text.trim rest = base := by
  have hdigits : Text.words (Nat.toDigits 10 n) = [Nat.toDigits 10 n] :=
    Text.words_of_word Nat.toDigits_ne_nil fun c hc => (isPlain_toDigits hc).not_blank
  have hwords : Text.words (Nat.toDigits 10 n ++ ' ' :: '*' :: ' ' :: base) =
      Nat.toDigits 10 n :: ['*'] :: Text.words base := by
    rw [Text.words_append_blank (by decide), hdigits, Text.words_cons_gap (by decide) (by decide)]
    rfl
  have hsqueeze : [' '].intercalate (Text.words base) = base :=
    Text.squeeze_of_tidy hbase.trimmed hbase.tidy
  rw [text_product, Text.squeeze, hwords]
  cases hw : Text.words base with
  | nil =>
    rw [hw] at hsqueeze
    subst hsqueeze
    refine ⟨[], ?_, by simp, rfl⟩
    simp [List.intercalate_cons_cons, List.intercalate_singleton]
  | cons w ws =>
    refine ⟨' ' :: base, ?_, by simpa using hstar, ?_⟩
    · rw [List.intercalate_cons_cons, List.intercalate_cons_cons, ← hw, hsqueeze]
      simp
    · have htrim := Text.trim_blanks_append space_blank base
      exact htrim.trans (Text.trim_of_trimmed hbase.trimmed)

theorem ofNormal_text_product (hn : n < 2 ^ 32) (hbase : Normal base) (hstar : '*' ∉ base) :
    ofNormal (Text.squeeze (product n (String.ofList base)).text.toList) =
      product n (String.ofList base) := by
  obtain ⟨rest, hsqueeze, hrest, htrim⟩ := squeeze_text_product (n := n) hbase hstar
  have hleft : '*' ∉ Nat.toDigits 10 n ++ [' '] := by
    intro h
    rcases List.mem_append.1 h with h | h
    · exact (isPlain_toDigits h).ne_star rfl
    · exact absurd h (by decide)
  have hdigits : Text.trim (Nat.toDigits 10 n ++ [' ']) = Nat.toDigits 10 n := by
    rw [Text.trim_append_blanks space_blank, Text.trim_of_trimmed]
    constructor
    · intro c hc
      exact (isPlain_toDigits (List.mem_of_head? hc)).not_blank
    · intro c hc
      exact (isPlain_toDigits (List.mem_of_getLast? hc)).not_blank
  rw [hsqueeze, ofNormal_of_star hleft, hdigits, Text.unsigned32?_toDigits hn,
    takeWhile_of_not_mem hrest, htrim]

theorem ofNormal_text_count (w : NumberWord) (hne : unit ≠ []) (hunit : ∀ c ∈ unit, IsPlain c) :
    ofNormal (Text.squeeze (count w (String.ofList unit)).text.toList) =
      count w (String.ofList unit) := by
  have hspace : ∀ {cs : List Char}, (∀ c ∈ cs, IsPlain c) → ' ' ∉ cs :=
    fun h hmem => (h ' ' hmem).not_blank (by decide)
  have hword : ∀ c ∈ w.text.toList, IsPlain c := fun _ => NumberWord.isPlain_text
  have hsqueeze : Text.squeeze (w.text.toList ++ ' ' :: unit) = w.text.toList ++ ' ' :: unit := by
    rw [Text.squeeze, Text.words_append_blank (by decide),
      Text.words_of_word w.text_ne_nil fun c hc => (hword c hc).not_blank,
      Text.words_of_word hne fun c hc => (hunit c hc).not_blank]
    simp [List.intercalate_cons_cons, List.intercalate_singleton]
  have hstar : '*' ∉ w.text.toList ++ ' ' :: unit := by
    simp only [List.mem_append, List.mem_cons, not_or]
    exact ⟨fun h => (hword '*' h).ne_star rfl, by decide, fun h => (hunit '*' h).ne_star rfl⟩
  rw [text_count, hsqueeze, ofNormal_of_words (by simp) hstar, ofWords,
    List.splitOn_append_cons_self_of_not_mem (hspace hword),
    List.splitOn_eq_singleton (hspace hunit)]
  simp only [String.ofList_toList, NumberWord.ofText?_text]

/-- What a piece of a text is classified as. -/
inductive Canonical : Piece → Prop where
  | blank : Canonical .blank
  | name {cs : List Char} (normal : Normal cs) (comma : ',' ∉ cs)
      (same : ofNormal cs = .name (String.ofList cs)) : Canonical (.name (String.ofList cs))
  | product {n : Nat} {base : List Char} (lt : n < 2 ^ 32) (normal : Normal base)
      (comma : ',' ∉ base) (star : '*' ∉ base) : Canonical (.product n (String.ofList base))
  | count (w : NumberWord) {unit : List Char} (ne : unit ≠ []) (plain : ∀ c ∈ unit, IsPlain c) :
      Canonical (.count w (String.ofList unit))

theorem canonical_of_star (h : Normal cs) (hcomma : ',' ∉ cs) (hstar : '*' ∈ cs) :
    Canonical (ofNormal cs) := by
  obtain ⟨left, right, rfl, hleft⟩ := List.eq_append_cons_of_mem hstar
  have hcs := ofNormal_of_star hleft right
  cases hn : Text.unsigned32? (Text.trim left) with
  | none =>
    rw [hn] at hcs
    rw [hcs]
    exact .name h hcomma hcs
  | some n =>
    rw [hn] at hcs
    rw [hcs]
    have hpart : right.takeWhile (· != '*') <:+: left ++ '*' :: right :=
      (List.takeWhile_prefix _).isInfix.trans ((List.suffix_cons '*' right).trans
        (List.suffix_append left _)).isInfix
    have hbase := (Text.trim_isInfix (right.takeWhile (· != '*'))).subset
    refine .product (Text.unsigned32?_lt hn) (h.trim_of_part hpart) ?_ ?_
    · intro hmem
      exact hcomma (hpart.subset (hbase hmem))
    · intro hmem
      have hstop := List.mem_takeWhile_imp (hbase hmem)
      simp at hstop

theorem canonical_of_words (h : Normal cs) (hne : cs ≠ []) (hcomma : ',' ∉ cs) (hstar : '*' ∉ cs) :
    Canonical (ofNormal cs) := by
  have hwords := Text.splitOn_space h.trimmed h.tidy hne
  have hcs := ofNormal_of_words hne hstar
  have hname (hsame : ofNormal cs = .name (String.ofList cs)) : Canonical (ofNormal cs) := by
    rw [hsame]
    exact .name h hcomma hsame
  rw [ofWords, hwords] at hcs
  rcases hparts : Text.words cs with _ | ⟨first, _ | ⟨unit, rest⟩⟩
  · exact hname (by rw [hcs, hparts])
  · exact hname (by rw [hcs, hparts])
  · cases hw : NumberWord.ofText? (String.ofList first) with
    | none => exact hname (by rw [hcs, hparts]; simp only [hw])
    | some w =>
      have hmem : unit ∈ Text.words cs := by simp [hparts]
      have hunit : unit <:+: cs := infix_of_mem_splitOn (hwords ▸ hmem)
      obtain ⟨hunit0, hblank⟩ := Text.mem_words hmem
      rw [hcs, hparts]
      simp only [hw]
      refine .count w hunit0 ?_
      intro c hc
      have hmem := hunit.subset hc
      exact ⟨h.stable c hmem, hblank c hc, ne_of_mem_of_not_mem hmem hcomma,
        ne_of_mem_of_not_mem hmem hstar⟩

theorem canonical_ofNormal (h : Normal cs) (hcomma : ',' ∉ cs) : Canonical (ofNormal cs) := by
  by_cases hne : cs = []
  · subst hne
    exact .blank
  · by_cases hstar : '*' ∈ cs
    · exact canonical_of_star h hcomma hstar
    · exact canonical_of_words h hne hcomma hstar

namespace Canonical

/-- A piece is found again in its own text. -/
theorem ofNormal_text (h : Canonical p) : ofNormal (Text.squeeze p.text.toList) = p := by
  cases h with
  | blank => rfl
  | name normal comma same =>
    rw [text, String.toList_ofList, Text.squeeze_of_tidy normal.trimmed normal.tidy, same]
  | product lt normal comma star => exact ofNormal_text_product lt normal star
  | count w ne plain => exact ofNormal_text_count w ne plain

theorem comma_not_mem (h : Canonical p) : ',' ∉ p.text.toList := by
  cases h with
  | blank => simp [text]
  | name normal comma same => simpa [text] using comma
  | product lt normal comma star =>
    rw [text_product]
    simp only [List.mem_append, List.mem_cons, not_or]
    exact ⟨fun hc => (isPlain_toDigits hc).ne_comma rfl, by decide, by decide, by decide, comma⟩
  | count w ne plain =>
    rw [text_count]
    simp only [List.mem_append, List.mem_cons, not_or]
    exact ⟨fun hc => (NumberWord.isPlain_text hc).ne_comma rfl, by decide,
      fun hc => (plain ',' hc).ne_comma rfl⟩

theorem stable_text (h : Canonical p) {c : Char} (hc : c ∈ p.text.toList) : Text.Stable c := by
  cases h with
  | blank => simp [text] at hc
  | name normal comma same =>
    rw [text, String.toList_ofList] at hc
    exact normal.stable c hc
  | product lt normal comma star =>
    rw [text_product] at hc
    simp only [List.mem_append, List.mem_cons] at hc
    rcases hc with hc | rfl | rfl | rfl | hc
    · exact (isPlain_toDigits hc).stable
    · exact stable_space
    · exact stable_star
    · exact stable_space
    · exact normal.stable c hc
  | count w ne plain =>
    rw [text_count] at hc
    simp only [List.mem_append, List.mem_cons] at hc
    rcases hc with hc | rfl | hc
    · exact (NumberWord.isPlain_text hc).stable
    · exact stable_space
    · exact (plain c hc).stable

end Canonical

end Piece

namespace Duration

/-! ## Whole texts -/

/-- The duration with these pieces: one piece stands alone. -/
def ofPieces : List Piece → Duration
  | [p] => .piece p
  | ps => .sum ps

theorem text_ofPieces (ps : List Piece) :
    (ofPieces ps).text.toList = [',', ' '].intercalate (ps.map fun p => p.text.toList) := by
  have hsum : (sum ps).text.toList = [',', ' '].intercalate (ps.map fun p => p.text.toList) := by
    rw [text, String.toList_intercalate, List.map_map]
    rfl
  rcases ps with _ | ⟨p, _ | ⟨q, ps⟩⟩
  · exact hsum
  · rw [List.map_singleton, List.intercalate_singleton, ofPieces, text]
  · exact hsum

/-- The pieces that a text is cut into. -/
def piecesOf (text : String) : List Piece :=
  ((normalize text.toList).splitOn ',').map fun p => .ofNormal (normalize p)

theorem classify_eq (text : String) : classify text = ofPieces (piecesOf text) := by
  have hjoin : [','].intercalate ((normalize text.toList).splitOn ',') = normalize text.toList :=
    List.intercalate_splitOn ','
  simp only [classify, piecesOf]
  rcases hpieces : (normalize text.toList).splitOn ',' with _ | ⟨p, _ | ⟨q, ps⟩⟩
  · exact absurd hpieces (List.splitOn_ne_nil ',' _)
  · rw [hpieces, List.intercalate_singleton] at hjoin
    simp only [List.map_cons, List.map_nil, ofPieces, hjoin, normalize_normalize]
  · rfl

theorem piecesOf_ne_nil (text : String) : piecesOf text ≠ [] := by
  simp [piecesOf, List.splitOn_ne_nil]

theorem canonical_of_mem_piecesOf {text : String} {p : Piece} (h : p ∈ piecesOf text) :
    p.Canonical := by
  obtain ⟨q, hq, rfl⟩ := List.mem_map.1 h
  have hnormal := normal_normalize text.toList
  have hpart := infix_of_mem_splitOn hq
  rw [normalize_of_part hnormal hpart]
  refine Piece.canonical_ofNormal (hnormal.trim_of_part hpart) ?_
  exact fun hmem => Text.not_mem_of_mem_splitOn hq ((Text.trim_isInfix q).subset hmem)

/-- Where lower case changes nothing, a text may be cut before its blanks are squeezed. -/
theorem piecesOf_of_stable {text : String} (h : ∀ c ∈ text.toList, Text.Stable c) :
    piecesOf text =
      (Text.pieceWords ',' text.toList).map fun ws => .ofNormal ([' '].intercalate ws) := by
  have hstable : ∀ c ∈ Text.squeeze text.toList, Text.Stable c := by
    intro c hc
    rcases Text.mem_of_mem_squeeze hc with hc | rfl
    · exact h c hc
    · exact stable_space
  have hnormal : normalize text.toList = Text.squeeze text.toList :=
    Text.lowerFrom_of_stable hstable []
  have hpieces : ∀ p ∈ (normalize text.toList).splitOn ',',
      Piece.ofNormal (normalize p) = .ofNormal ([' '].intercalate (Text.words p)) := by
    intro p hp
    have hpart := infix_of_mem_splitOn hp
    rw [normalize_of_part (normal_normalize _) hpart,
      ← Text.squeeze_eq_trim ((normal_normalize _).tidy.of_part hpart), Text.squeeze]
  rw [piecesOf, List.map_congr_left hpieces, hnormal,
    ← Text.pieceWords_squeeze (by decide) text.toList, Text.pieceWords, List.map_map]
  rfl

/-- Pieces of texts are found again in their common text. -/
theorem piecesOf_text {ps : List Piece} (hne : ps ≠ []) (h : ∀ p ∈ ps, p.Canonical) :
    piecesOf (ofPieces ps).text = ps := by
  have hcomma : ∀ t ∈ ps.map fun p => p.text.toList, ',' ∉ t := by
    intro t ht
    obtain ⟨p, hp, rfl⟩ := List.mem_map.1 ht
    exact (h p hp).comma_not_mem
  have hstable : ∀ c ∈ (ofPieces ps).text.toList, Text.Stable c := by
    intro c hc
    rw [text_ofPieces] at hc
    rcases Text.mem_intercalate hc with hc | ⟨t, ht, hc⟩
    · simp only [List.mem_cons, List.not_mem_nil, or_false] at hc
      rcases hc with rfl | rfl
      · exact stable_comma
      · exact stable_space
    · obtain ⟨p, hp, rfl⟩ := List.mem_map.1 ht
      exact (h p hp).stable_text hc
  have hsame : ∀ p ∈ ps, Piece.ofNormal (Text.squeeze p.text.toList) = p :=
    fun p hp => (h p hp).ofNormal_text
  rw [piecesOf_of_stable hstable, text_ofPieces,
    Text.pieceWords_intercalate (by decide) (by simpa using hne) hcomma, List.map_map, List.map_map]
  exact (List.map_congr_left hsame).trans (List.map_id ps)

/-- A text is classified as its normal written form is. -/
theorem classify_text (text : String) : classify (classify text).text = classify text := by
  rw [classify_eq text, classify_eq,
    piecesOf_text (piecesOf_ne_nil text) fun p => canonical_of_mem_piecesOf]

/-- Null stands for the blank duration, and any other text for itself. -/
theorem ofJson_toJson_classify (text : String) :
    ofJson (classify text).toJson = classify text := by
  have htext := classify_text text
  cases hd : classify text with
  | piece p =>
    rw [hd] at htext
    cases p with
    | blank => simp only [toJson, ofJson, blank]
    | _ => simpa only [toJson, ofJson, Duration.text] using htext
  | sum ps =>
    rw [hd] at htext
    simpa only [toJson, ofJson] using htext
  | sequence items =>
    rw [classify_eq] at hd
    unfold ofPieces at hd
    split at hd <;> cases hd

/--
**The written form tells the duration.** A text is classified as its written form is, so two texts
of one written form are one duration, and writing and reading a duration once more, as a text or
as part of a document, changes nothing however often it is done.
-/
theorem written_form_canonical (text : String) :
    classify (classify text).text = classify text ∧
      (∀ other : String, (classify other).text = (classify text).text →
        classify other = classify text) ∧
      ∀ n : Nat, (fun d => classify d.text)^[n] (classify text) = classify text ∧
        (fun d => ofJson d.toJson)^[n] (classify text) = classify text := by
  refine ⟨classify_text text, ?_, ?_⟩
  · intro other hsame
    rw [← classify_text other, hsame, classify_text text]
  · intro n
    have hdisplay : Function.IsFixedPt (fun d => classify d.text) (classify text) :=
      classify_text text
    have hwire : Function.IsFixedPt (fun d => ofJson d.toJson) (classify text) :=
      ofJson_toJson_classify text
    exact ⟨hdisplay.iterate n, hwire.iterate n⟩

example : (classify " +007 *X,, 3 *").text = "7 * x, , 3 * " := by
  decide +kernel

end Duration

end MeterCheck
