import MeterCheck.Proofs.Duration.Clear
import MeterCheck.Score.Statistics
import Mathlib.Data.List.DropRight

/-!
# What a bucket tells

* `value_classify_bucket`: the bucket of a duration that is no list is a text of its value;
* `Duration.listValue`, `listValue_bucket`: the value of a list stands behind the last sign that
  begins an item;
* `value_eq_of_clear`, `recognized_eq_of_bucket`: what durations in one bucket have in common;
* `Duration.Legible`, `bucketValue_bucket`: the bucket alone tells the value, if no text looks like
  a list.
-/

namespace MeterCheck.Duration

variable {v : Json} {p : Piece}

/-! ## Durations that are no lists -/

/-- The bucket of a text is classified as the text is, and that of a blank is not known either. -/
theorem value_classify_bucket_classify (s : String) :
    (classify (classify s).bucket).value = (classify s).value := by
  by_cases hblank : (classify s).isBlank = true
  · have heq : classify s = blank := by
      unfold isBlank at hblank
      split at hblank
      · assumption
      · cases hblank
    rw [heq]
    decide +kernel
  · rw [bucket, if_neg hblank, classify_text]

theorem bucket_name (cs : List Char) :
    (piece (.name (String.ofList cs))).bucket = String.ofList cs := rfl

/-- Whether a duration that is no list was recognized is told by its bucket. -/
theorem recognized_classify_bucket (h : (ofJson v).isList = false) :
    (classify (ofJson v).bucket).value.recognized = (ofJson v).value.recognized := by
  obtain ⟨s, hs⟩ | ⟨cs, hcs, hinert⟩ := ofJson_cases h
  · rw [hs, value_classify_bucket_classify]
  · rw [hcs, bucket_name, hinert.unknown_pieces, value, hinert.unknown]
    rfl

theorem value_classify_bucket (h : (ofJson v).isList = false) (hclear : (ofJson v).Clear) :
    (classify (ofJson v).bucket).value = (ofJson v).value := by
  obtain ⟨s, hs⟩ | ⟨cs, hcs, hinert⟩ := ofJson_cases h
  · rw [hs, value_classify_bucket_classify]
  · rw [hcs, Clear, Piece.HasComma, Piece.text, String.toList_ofList] at hclear
    rw [hcs, bucket_name, hinert.whole hclear]

/-- Where a comma is mistaken, nothing was known. -/
theorem value_of_not_clear (h : (ofJson v).isList = false) (hclear : ¬ (ofJson v).Clear) :
    (ofJson v).value = .unknown := by
  obtain ⟨s, hs⟩ | ⟨cs, hcs, hinert⟩ := ofJson_cases h
  · exact (hclear (hs ▸ clear_classify s)).elim
  · rw [hcs, value, hinert.unknown]

/-! ## Lists -/

/-- The text without the brackets that close lists. -/
def unclosed (cs : List Char) : List Char := cs.rdropWhile (· == ']')

/-- What stands after the last sign that begins an item. -/
def lastItem (cs : List Char) : List Char := cs.rtakeWhile fun c => c != ',' && c != '['

/-- The value that the text of a list tells; nothing is known of what ends as an object does. -/
def listValue (bucket : String) : Value :=
  let cs := unclosed bucket.toList
  if cs.getLast? = some '\x7d' then .unknown else (classify (String.ofList (lastItem cs))).value

theorem unclosed_append_replicate (cs : List Char) (n : Nat) :
    unclosed (cs ++ List.replicate n ']') = unclosed cs := by
  induction n with
  | zero => simp
  | succ n ih =>
    rw [List.replicate_succ', ← List.append_assoc, unclosed, List.rdropWhile_concat_pos _ _ _ rfl]
    exact ih

/-- The signs that begin an item end with a bracket or a space. -/
theorem Opens.getLast?_ne {before : List Char} {c : Char} (h : Opens before) (hbracket : c ≠ '[')
    (hspace : c ≠ ' ') : before.getLast? ≠ some c := by
  obtain ⟨b, rfl | rfl⟩ := h
  · simp [hbracket.symm]
  · simp [hspace.symm]

theorem unclosed_of_opens {before cs : List Char} (h : Opens before)
    (hcs : cs.getLast? ≠ some ']') : unclosed (before ++ cs) = before ++ cs := by
  apply List.rdropWhile_eq_self_iff.2
  intro hne hlast
  have hbracket : (before ++ cs).getLast? = some ']' := by
    rw [List.getLast?_eq_some_getLast hne, eq_of_beq hlast]
  exact hcs (Piece.getLast?_of_append hbracket (h.getLast?_ne (by decide) (by decide)))

/-- What begins the last item is dropped, up to a space. -/
theorem lastItem_of_opens {before cs : List Char} (h : Opens before)
    (hcs : ∀ c ∈ cs, c ≠ ',' ∧ c ≠ '[' ∧ c ≠ ']') :
    lastItem (before ++ cs) = cs ∨ lastItem (before ++ cs) = ' ' :: cs := by
  have hall : ∀ c ∈ cs.reverse, (c != ',' && c != '[') = true := by
    intro c hc
    obtain ⟨hcomma, hopen, -⟩ := hcs c (List.mem_reverse.1 hc)
    simp [hcomma, hopen]
  have htake : lastItem (before ++ cs) = lastItem before ++ cs := by
    rw [lastItem, List.rtakeWhile, List.reverse_append, List.takeWhile_append_of_pos hall,
      List.reverse_append, List.reverse_reverse]
    rfl
  rw [htake]
  obtain ⟨b, rfl | rfl⟩ := h
  · left
    rw [lastItem, List.rtakeWhile_concat_neg _ _ _ (by decide)]
    rfl
  · right
    rw [lastItem, show b ++ [',', ' '] = b ++ [','] ++ [' '] by simp,
      List.rtakeWhile_concat_pos _ _ _ (by decide), List.rtakeWhile_concat_neg _ _ _ (by decide)]
    rfl

theorem classify_space (cs : List Char) :
    classify (String.ofList (' ' :: cs)) = classify (String.ofList cs) := by
  have hnormal : normalize (' ' :: cs) = normalize cs := by
    rw [normalize, normalize, Text.squeeze_cons_blank (by decide)]
  rw [classify_eq, classify_eq, piecesOf, piecesOf, String.toList_ofList, String.toList_ofList,
    hnormal]

theorem classify_lastItem_of_opens {before : List Char} (h : Opens before) (hp : p.FromDocument)
    (hbare : p.IsBare) :
    classify (String.ofList (lastItem (before ++ p.text.toList))) = .piece p := by
  have hcomma : ¬ p.HasComma := fun hmem => (hbare ',' hmem).1 rfl
  obtain hitem | hitem := lastItem_of_opens h hbare
  · rw [hitem, String.ofList_toList, hp.classify_text hcomma]
  · rw [hitem, classify_space, String.ofList_toList, hp.classify_text hcomma]

theorem bucket_of_isList {d : Duration} (h : d.isList = true) : d.bucket = d.text := by
  cases d with
  | sequence items => rfl
  | piece | sum => cases h

theorem listValue_bucket (h : (ofJson v).isList = true) (hclear : (ofJson v).Clear) :
    listValue (ofJson v).bucket = (ofJson v).value := by
  obtain ⟨p, hcounted, hsigns⟩ : ∃ p, (ofJson v).counted = [p] ∧ (p.IsBare ∨ p.IsClosed) := by
    cases hd : ofJson v with
    | sequence items =>
      rw [hd] at hclear
      exact hclear
    | piece | sum =>
      rw [hd] at h
      cases h
  obtain ⟨hp, hvalue, before, n, htext, hbefore⟩ := text_of_counted hcounted
  have hopens : Opens before := by
    obtain ⟨hno, -⟩ | hopens := hbefore
    · rw [hno] at h
      cases h
    · exact hopens
  have hlast : p.text.toList.getLast? ≠ some ']' := by
    intro hlast
    obtain hbare | hclosed := hsigns
    · exact (hbare ']' (List.mem_of_getLast? hlast)).2.2 rfl
    · rw [Piece.IsClosed, hlast] at hclosed
      cases hclosed
  have hunclosed : unclosed (ofJson v).bucket.toList = before ++ p.text.toList := by
    rw [bucket_of_isList h, htext, unclosed_append_replicate, unclosed_of_opens hopens hlast]
  rw [listValue, hunclosed, hvalue]
  by_cases hbrace : (before ++ p.text.toList).getLast? = some '\x7d'
  · have hclosed : p.IsClosed :=
      Piece.getLast?_of_append hbrace (hopens.getLast?_ne (by decide) (by decide))
    rw [if_pos hbrace, hp.value_of_closed hclosed]
  · have hbare : p.IsBare := by
      apply hsigns.resolve_right
      intro hclosed
      apply hbrace
      rw [List.getLast?_append, hclosed]
      rfl
    rw [if_neg hbrace, classify_lastItem_of_opens hopens hp hbare, value]

/-! ## Durations in one bucket -/

/-- The text begins and ends as that of a list does. -/
def isListed (bucket : String) : Bool :=
  bucket.toList.head? == some '[' && bucket.toList.getLast? == some ']'

/-- The value that a bucket tells, if what looks like a list is one. -/
def bucketValue (bucket : String) : Value :=
  if isListed bucket then listValue bucket else (classify bucket).value

/-- The bucket tells the value: it is clear, and looks like a list only if it is one. -/
structure Legible (d : Duration) : Prop where
  clear : d.Clear
  isList : isListed d.bucket = true → d.isList = true

theorem isListed_bucket {d : Duration} (h : d.isList = true) : isListed d.bucket = true := by
  rw [bucket_of_isList h]
  cases d with
  | sequence items =>
    have htext : (sequence items).text.toList =
        ('[' :: (", ".intercalate (itemTexts items)).toList) ++ [']'] := by
      rw [text, String.toList_append, String.toList_append]
      rfl
    rw [isListed, htext, List.getLast?_concat]
    rfl
  | piece | sum => cases h

theorem bucketValue_bucket (h : (ofJson v).Legible) :
    bucketValue (ofJson v).bucket = (ofJson v).value := by
  cases hlist : (ofJson v).isList with
  | true => rw [bucketValue, if_pos (isListed_bucket hlist), listValue_bucket hlist h.clear]
  | false =>
    have hlisted : ¬ isListed (ofJson v).bucket = true := by
      intro hlisted
      rw [h.isList hlisted] at hlist
      cases hlist
    rw [bucketValue, if_neg hlisted, value_classify_bucket hlist h.clear]

variable {w : Json}

theorem value_eq_of_clear (hbucket : (ofJson v).bucket = (ofJson w).bucket)
    (hlist : (ofJson v).isList = (ofJson w).isList) (hv : (ofJson v).Clear)
    (hw : (ofJson w).Clear) : (ofJson v).value = (ofJson w).value := by
  cases hd : (ofJson v).isList with
  | true => rw [← listValue_bucket hd hv, hbucket, listValue_bucket (hlist ▸ hd) hw]
  | false => rw [← value_classify_bucket hd hv, hbucket, value_classify_bucket (hlist ▸ hd) hw]

/-- Two durations that are no lists are both known or both unknown. -/
theorem recognized_eq_of_bucket (hbucket : (ofJson v).bucket = (ofJson w).bucket)
    (hv : (ofJson v).isList = false) (hw : (ofJson w).isList = false) :
    (ofJson v).value.recognized = (ofJson w).value.recognized := by
  rw [← recognized_classify_bucket hv, hbucket, recognized_classify_bucket hw]

/-- If a comma is mistaken in both of them, nothing was known of either. -/
theorem value_eq_of_bucket (hbucket : (ofJson v).bucket = (ofJson w).bucket)
    (hv : (ofJson v).isList = false) (hw : (ofJson w).isList = false)
    (hclear : (ofJson v).Clear ↔ (ofJson w).Clear) : (ofJson v).value = (ofJson w).value := by
  by_cases h : (ofJson v).Clear
  · exact value_eq_of_clear hbucket (hv.trans hw.symm) h (hclear.1 h)
  · rw [value_of_not_clear hv h, value_of_not_clear hw fun hw' => h (hclear.2 hw')]

end MeterCheck.Duration
