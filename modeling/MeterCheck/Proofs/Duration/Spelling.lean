import MeterCheck.Proofs.Duration.Meaning
import MeterCheck.Proofs.Duration.Display
import MeterCheck.Proofs.Text.Parts
import Mathlib.Logic.Relation

/-!
# Spellings of a duration

The same duration may be written with other blanks and in another letter case.

* `Respells`: one change of the spelling;
* `Respells.parts_lower`: it leaves the lower-case parts of the text as they are;
* `Duration.map_value_piecesOf`: the pieces of a text are worth what its lower-case parts say;
* `Duration.value_of_respelled`: so no number of such changes makes a difference.
-/

namespace MeterCheck

open Text (parts isMark isBlank)

/-! ## Respelling -/

/-- One change of the spelling of a text. -/
inductive Respells : List Char → List Char → Prop
  /-- The case of an ASCII letter. -/
  | letter (xs ys : List Char) {c d : Char} (same : c.toLower = d.toLower) :
      Respells (xs ++ c :: ys) (xs ++ d :: ys)
  /-- One run of blanks for another. -/
  | gap (xs ys : List Char) {blanks blanks' : List Char} (nonempty : blanks ≠ [])
      (nonempty' : blanks' ≠ []) (blank : ∀ c ∈ blanks, isBlank c = true)
      (blank' : ∀ c ∈ blanks', isBlank c = true) :
      Respells (xs ++ (blanks ++ ys)) (xs ++ (blanks' ++ ys))
  | start (cs : List Char) {blanks : List Char} (blank : ∀ c ∈ blanks, isBlank c = true) :
      Respells cs (blanks ++ cs)
  | stop (cs : List Char) {blanks : List Char} (blank : ∀ c ∈ blanks, isBlank c = true) :
      Respells cs (cs ++ blanks)
  | beforeMark (xs ys : List Char) {blanks : List Char} {c : Char} (mark : isMark c = true)
      (blank : ∀ c ∈ blanks, isBlank c = true) :
      Respells (xs ++ c :: ys) (xs ++ (blanks ++ c :: ys))
  | afterMark (xs ys : List Char) {blanks : List Char} {c : Char} (mark : isMark c = true)
      (blank : ∀ c ∈ blanks, isBlank c = true) :
      Respells (xs ++ c :: ys) (xs ++ c :: (blanks ++ ys))

/-- Any number of changes, each of them made or taken back. -/
def Respelled : List Char → List Char → Prop := Relation.EqvGen Respells

theorem Respells.parts_lower {cs ds : List Char} (h : Respells cs ds) :
    parts (Text.lower cs) = parts (Text.lower ds) := by
  cases h with
  | letter xs ys same =>
    rw [Text.lower_eq_of_toLower_eq]
    simp only [List.map_append, List.map_cons, same]
  | gap xs ys nonempty nonempty' blank blank' =>
    rw [Text.parts_lower, Text.parts_lower, Text.parts_gap blank nonempty,
      Text.parts_gap blank' nonempty']
  | start _ blank => rw [Text.parts_lower, Text.parts_lower, Text.parts_blanks_append blank]
  | stop _ blank => rw [Text.parts_lower, Text.parts_lower, Text.parts_append_blanks blank]
  | beforeMark xs ys mark blank =>
    rw [Text.parts_lower, Text.parts_lower, Text.parts_blanks_mark blank mark]
  | afterMark xs ys mark blank =>
    rw [Text.parts_lower, Text.parts_lower, Text.parts_mark_blanks blank mark]

/-- The step is carried over to any number of changes. -/
theorem Respelled.parts_lower {cs ds : List Char} (h : Respelled cs ds) :
    parts (Text.lower cs) = parts (Text.lower ds) := by
  induction h with
  | rel cs ds hstep => exact hstep.parts_lower
  | refl cs => rfl
  | symm cs ds _ ih => exact ih.symm
  | trans cs ds es _ _ ih ih' => exact ih.trans ih'

/-! ## What the parts say -/

/-- The rules for one piece, read off its parts. -/
def partsMeaning (ws : List (List Char)) : Value :=
  match ws.splitOn ['*'] with
  | multiplier :: base :: _ =>
    productMeaning ([' '].intercalate multiplier) ([' '].intercalate base)
  | _ => pieceMeaning ([' '].intercalate ws)

theorem productMeaning_trim (multiplier base : List Char) :
    productMeaning (Text.trim multiplier) (Text.trim base) = productMeaning multiplier base := by
  rw [productMeaning, productMeaning, Text.trim_of_trimmed (Text.trimmed_trim multiplier),
    Text.trim_of_trimmed (Text.trimmed_trim base)]

/-- Without marks only the blanks at the ends of a tidy text are lost. -/
theorem intercalate_parts {q : List Char} (h : Text.Tidy q) (hcomma : ',' ∉ q) (hstar : '*' ∉ q) :
    [' '].intercalate (parts q) = Text.trim q := by
  have hmark : ∀ c ∈ q, ¬ isMark c = true := by
    intro c hc hmark
    rcases Text.mark_cases hmark with rfl | rfl
    · exact hcomma hc
    · exact hstar hc
  rw [Text.parts_of_no_mark hmark, ← Text.squeeze_eq_trim h, Text.squeeze]

theorem partsMeaning_parts {p : List Char} (h : Text.Tidy p) (hcomma : ',' ∉ p) :
    partsMeaning (parts p) = pieceMeaning p := by
  have hjoin : ∀ q ∈ p.splitOn '*', [' '].intercalate (parts q) = Text.trim q := by
    intro q hq
    have hpart := infix_of_mem_splitOn hq
    exact intercalate_parts (h.of_part hpart) (fun hmem => hcomma (hpart.subset hmem))
      (Text.not_mem_of_mem_splitOn hq)
  rw [partsMeaning, Text.splitOn_parts (by decide)]
  by_cases hstar : '*' ∈ p
  · obtain ⟨left, right, rfl, hleft⟩ := List.eq_append_cons_of_mem hstar
    obtain ⟨rest, hrest⟩ := splitOn_head right '*'
    have hsplit : (left ++ '*' :: right).splitOn '*' =
        left :: right.takeWhile (· != '*') :: rest := by
      rw [List.splitOn_append_cons_self_of_not_mem hleft, hrest]
    rw [hsplit] at hjoin ⊢
    rw [List.map_cons, List.map_cons]
    dsimp only
    rw [hjoin left (by simp), hjoin _ (by simp), productMeaning_trim, pieceMeaning_of_star hleft]
  · have hsplit := List.splitOn_eq_singleton hstar
    rw [hsplit] at hjoin ⊢
    rw [List.map_singleton]
    dsimp only
    rw [hjoin p List.mem_cons_self, pieceMeaning_trim]

namespace Duration

theorem parts_normalize (cs : List Char) : parts (normalize cs) = parts (Text.lower cs) := by
  rw [normalize, Text.parts_lower, Text.parts_squeeze, Text.parts_lower]

/-- What the pieces of a text are worth can be read off its lower-case parts. -/
theorem map_value_piecesOf (text : String) : (piecesOf text).map Piece.value =
    ((parts (Text.lower text.toList)).splitOn [',']).map partsMeaning := by
  have hnormal := normal_normalize text.toList
  rw [← parts_normalize, Text.splitOn_parts (by decide), piecesOf, List.map_map, List.map_map]
  apply List.map_congr_left
  intro p hp
  have hpart := infix_of_mem_splitOn hp
  have hparts := partsMeaning_parts (hnormal.tidy.of_part hpart) (Text.not_mem_of_mem_splitOn hp)
  exact (Piece.value_ofNormal_of_part hnormal hpart).trans hparts.symm

/-! ## Durations -/

/-- What pieces with these values are worth; a piece that stands alone is not added to anything. -/
def together : List Value → Value
  | [v] => v
  | vs => .sum vs

theorem value_ofPieces (ps : List Piece) :
    (ofPieces ps).value = together (ps.map Piece.value) := by
  rcases ps with _ | ⟨p, _ | ⟨q, ps⟩⟩ <;> simp only [ofPieces, value] <;> rfl

end Duration

namespace Checked

def together : List Value → Option Value
  | [v] => some v
  | vs => sum vs

theorem value_ofPieces {ps : List Piece} (h : ∀ p ∈ ps, p.WordSized) :
    value (Duration.ofPieces ps) = together (ps.map Piece.value) := by
  have hpiece : ∀ p ∈ ps, piece p = some p.value := by
    intro p hp
    have hp' := piece_eq (h p hp)
    rw [hp', piece_eq_of_checked hp']
  have hmap : ps.mapM piece = some (ps.map Piece.value) := by
    refine (mapM_eq_some_iff (P := fun _ => True) ?_).2 ⟨fun _ _ => trivial, rfl⟩
    intro p hp v
    rw [hpiece p hp, Option.some_inj, true_and]
    exact eq_comm
  rcases ps with _ | ⟨p, _ | ⟨q, ps⟩⟩
  · rfl
  · exact hpiece p List.mem_cons_self
  · rw [Duration.ofPieces, value, hmap]
    · rfl
    · simp

end Checked

namespace Duration

theorem checked_value_classify (text : String) :
    Checked.value (classify text) = Checked.together ((piecesOf text).map Piece.value) := by
  rw [classify_eq, Checked.value_ofPieces]
  intro p hp
  obtain ⟨q, -, rfl⟩ := List.mem_map.1 hp
  exact Piece.wordSized_ofNormal _

/--
**Spelling does not matter.** Texts that differ in the case of ASCII letters, in the blanks between
their words and in blanks at their ends or beside a comma or an asterisk have one value, known or
not. Neither sum is stopped by an overflow unless the other one is.
-/
theorem value_of_respelled {text text' : String} (h : Respelled text.toList text'.toList) :
    (classify text').value = (classify text).value ∧
      Checked.value (classify text') = Checked.value (classify text) := by
  have hpieces : (piecesOf text').map Piece.value = (piecesOf text).map Piece.value := by
    rw [map_value_piecesOf, map_value_piecesOf, h.parts_lower]
  constructor
  · rw [classify_eq, classify_eq, value_ofPieces, value_ofPieces, hpieces]
  · rw [checked_value_classify, checked_value_classify, hpieces]

theorem value_of_respelled_three_eighths :
    Respelled "three  Eighth , half".toList "three eighth,half".toList ∧
      (classify "three eighth,half").value = ⟨⟨7, 2⟩, true⟩ := by
  have hgap : Respells ("three".toList ++ ("  ".toList ++ "Eighth , half".toList))
      ("three".toList ++ (" ".toList ++ "Eighth , half".toList)) :=
    .gap _ _ (by decide) (by decide) (List.all_eq_true.1 (by decide))
      (List.all_eq_true.1 (by decide))
  have hletter : Respells ("three ".toList ++ 'E' :: "ighth , half".toList)
      ("three ".toList ++ 'e' :: "ighth , half".toList) := .letter _ _ (by decide)
  have hbefore : Respells ("three eighth".toList ++ ',' :: " half".toList)
      ("three eighth".toList ++ (" ".toList ++ ',' :: " half".toList)) :=
    .beforeMark _ _ (by decide) (List.all_eq_true.1 (by decide))
  have hafter : Respells ("three eighth".toList ++ ',' :: "half".toList)
      ("three eighth".toList ++ ',' :: (" ".toList ++ "half".toList)) :=
    .afterMark _ _ (by decide) (List.all_eq_true.1 (by decide))
  have h : Respelled "three  Eighth , half".toList "three eighth,half".toList :=
    .trans _ _ _ (.rel _ _ hgap) (.trans _ _ _ (.rel _ _ hletter)
      (.trans _ _ _ (.symm _ _ (.rel _ _ hbefore)) (.symm _ _ (.rel _ _ hafter))))
  have hvalue : (classify "three  Eighth , half").value = ⟨⟨7, 2⟩, true⟩ := by decide +kernel
  exact ⟨h, (value_of_respelled h).1.trans hvalue⟩

end Duration

end MeterCheck
