import MeterCheck.Proofs.Binary64.Text
import MeterCheck.Proofs.Duration.Display
import MeterCheck.Proofs.Duration.Meaning
import MeterCheck.Proofs.Decode.Ensures
import MeterCheck.Proofs.Json.RoundTrip

/-!
# Durations that are written and read again

* `pieces`, `counted`: the pieces of a duration, and those that its value is made of;
* `Inert`: the name that a number, a truth value or an object is read as;
* `Rereads`: a duration comes back as itself if none of its pieces has a comma, and with its value
  unless the one that counts has one. It stays as known or unknown as it was in any case;
* `rereads_ofJson`: so does every duration that is read.
-/

namespace MeterCheck

namespace Piece

/-- The text of the piece would be cut. -/
def HasComma (p : Piece) : Prop := ',' ∈ p.text.toList

instance (p : Piece) : Decidable p.HasComma := inferInstanceAs (Decidable (',' ∈ p.text.toList))

end Piece

namespace Json

/-- No text, null or list: a duration that is written so is a name. -/
def IsScalar : Json → Prop
  | .bool _ | .int _ | .double _ | .object _ | .flawed => True
  | _ => False

end Json

namespace Duration

mutual

/-- All pieces. -/
def pieces : Duration → List Piece
  | .piece p => [p]
  | .sum ps => ps
  | .sequence items => itemPieces items

def itemPieces : List Duration → List Piece
  | [] => []
  | d :: rest => d.pieces ++ itemPieces rest

end

mutual

/-- The pieces that the value is made of. -/
def counted : Duration → List Piece
  | .piece p => [p]
  | .sum ps => ps
  | .sequence items => lastCounted items

def lastCounted : List Duration → List Piece
  | [] => []
  | [d] => d.counted
  | _ :: d :: rest => lastCounted (d :: rest)

end

/-- The duration that is read from the written form. -/
def reread (d : Duration) : Duration := ofJson d.toJson

/-! ## Names that are no texts -/

end Duration

theorem isPlain_brace : IsPlain '\x7b' :=
  @isPlain_of_all ['\x7b'] (by decide +kernel) _ List.mem_cons_self

/-- The first character of a normal form, if it is plain. -/
theorem normalize_cons {c : Char} (h : IsPlain c) (cs : List Char) :
    ∃ rest, normalize (c :: cs) = c :: rest := by
  obtain ⟨rest, hrest⟩ := Text.squeeze_cons_of_not_blank h.not_blank cs
  rw [normalize, hrest, Text.lower, Text.lowerFrom_cons, Text.lowerAt_of_stable [] h.stable]
  exact ⟨_, rfl⟩

theorem normalize_of_plain {cs : List Char} (hne : cs ≠ []) (h : ∀ c ∈ cs, IsPlain c) :
    normalize cs = cs := by
  have hsqueeze : Text.squeeze cs = cs := by
    rw [Text.squeeze, Text.words_of_word hne fun c hc => (h c hc).not_blank,
      List.intercalate_singleton]
  rw [normalize, hsqueeze]
  exact Text.lowerFrom_of_stable (fun c hc => (h c hc).stable) []

namespace Piece

theorem ofNormal_of_plain {cs : List Char} (hne : cs ≠ []) (h : ∀ c ∈ cs, IsPlain c) :
    ofNormal cs = .name (String.ofList cs) := by
  have hstar : '*' ∉ cs := fun hmem => (h '*' hmem).ne_star rfl
  have hspace : ' ' ∉ cs := fun hmem => (h ' ' hmem).not_blank (by decide)
  rw [ofNormal_of_words hne hstar, ofWords, List.splitOn_eq_singleton hspace]

/-- What starts with a brace is no product, since no number has one. -/
theorem unsigned32?_of_brace {cs : List Char} (h : '\x7b' ∈ cs) :
    Text.unsigned32? (Text.trim cs) = none := by
  cases hn : Text.unsigned32? (Text.trim cs) with
  | none => rfl
  | some n =>
    obtain ⟨_, ds, hds, _, hall, _⟩ := Text.unsigned32?_eq_some_iff.1 hn
    have hmem : '\x7b' ∈ Text.trim cs := Text.mem_trim h isPlain_brace.not_blank
    have hdigit : ¬ Text.IsDigit '\x7b' := by
      unfold Text.IsDigit
      decide
    rcases hds with hds | hds
    · exact absurd (hall _ (hds ▸ hmem)) hdigit
    · rw [hds] at hmem
      rcases List.mem_cons.1 hmem with hplus | hmem
      · exact absurd hplus (by decide)
      · exact absurd (hall _ hmem) hdigit

/-- No number word starts with a brace. -/
theorem ofText?_brace (cs : List Char) :
    NumberWord.ofText? (String.ofList ('\x7b' :: cs)) = none := by
  cases hw : NumberWord.ofText? (String.ofList ('\x7b' :: cs)) with
  | none => rfl
  | some w =>
    have hmem : '\x7b' ∈ w.text.toList := by
      rw [NumberWord.text_of_ofText? hw]
      simp
    have hno : ∀ w : NumberWord, '\x7b' ∉ w.text.toList := by
      intro w
      cases w <;> decide
    exact absurd hmem (hno w)

theorem ofNormal_brace (rest : List Char) :
    ofNormal ('\x7b' :: rest) = .name (String.ofList ('\x7b' :: rest)) := by
  by_cases hstar : '*' ∈ '\x7b' :: rest
  · obtain ⟨left, right, hcs, hleft⟩ := List.eq_append_cons_of_mem hstar
    have hbrace : '\x7b' ∈ left := by
      cases left with
      | nil => exact absurd (List.cons.inj hcs).1 (by decide)
      | cons c left =>
        rw [(List.cons.inj hcs).1]
        exact List.mem_cons_self
    rw [hcs, ofNormal_of_star hleft, unsigned32?_of_brace hbrace]
  · obtain ⟨units, hunits⟩ := splitOn_head ('\x7b' :: rest) ' '
    rw [List.takeWhile_cons_of_pos (by decide)] at hunits
    rw [ofNormal_of_words (List.cons_ne_nil _ _) hstar, ofWords, hunits]
    cases units with
    | nil => rfl
    | cons unit units => simp only [ofText?_brace]

theorem value_brace (rest : List Char) :
    (name (String.ofList ('\x7b' :: rest))).value = .unknown := by
  have hnone := noteValue?_eq_none (List.mem_cons_self (a := '\x7b') (l := rest))
    isPlain_brace.not_blank (by decide)
  rw [value, hnone]
  rfl

end Piece

namespace Duration

/-- A name that is no text: nothing is known of it, not even of the pieces that it is cut into. -/
structure Inert (cs : List Char) : Prop where
  whole : ',' ∉ cs → classify (String.ofList cs) = .piece (.name (String.ofList cs))
  unknown : (Piece.name (String.ofList cs)).value = .unknown
  unknown_pieces : (classify (String.ofList cs)).value.recognized = false

theorem classify_of_normal {cs : List Char} (h : normalize cs = cs) (hcomma : ',' ∉ cs) :
    classify (String.ofList cs) = .piece (.ofNormal cs) := by
  rw [classify_eq, piecesOf, String.toList_ofList, h, List.splitOn_eq_singleton hcomma,
    List.map_singleton, h]
  rfl

theorem inert_of_plain {cs : List Char} (hne : cs ≠ []) (h : ∀ c ∈ cs, IsPlain c)
    (hvalue : (Piece.name (String.ofList cs)).value = .unknown) : Inert cs := by
  have hwhole := classify_of_normal (normalize_of_plain hne h) fun hmem => (h ',' hmem).ne_comma rfl
  rw [Piece.ofNormal_of_plain hne h] at hwhole
  refine ⟨fun _ => hwhole, hvalue, ?_⟩
  rw [hwhole, value, hvalue]
  rfl

theorem recognized_ofPieces {p : Piece} (h : p.value = .unknown) (ps : List Piece) :
    (ofPieces (p :: ps)).value.recognized = false := by
  cases ps with
  | nil =>
    rw [ofPieces, value, h]
    rfl
  | cons q ps =>
    rw [ofPieces, value, Checked.recognized_sum]
    · simp [h, Value.unknown]
    · simp

/-- The first piece keeps the brace, so it is not known. -/
theorem inert_of_brace {rest : List Char} (h : Normal ('\x7b' :: rest)) :
    Inert ('\x7b' :: rest) := by
  have hnormal := normalize_of_normal h
  refine ⟨fun hcomma => ?_, Piece.value_brace rest, ?_⟩
  · rw [classify_of_normal hnormal hcomma, Piece.ofNormal_brace]
  · obtain ⟨ps, hps⟩ := splitOn_head ('\x7b' :: rest) ','
    rw [List.takeWhile_cons_of_pos (by decide)] at hps
    obtain ⟨first, hfirst⟩ := normalize_cons isPlain_brace (rest.takeWhile (· != ','))
    rw [classify_eq, piecesOf, String.toList_ofList, hnormal, hps, List.map_cons, hfirst,
      Piece.ofNormal_brace]
    exact recognized_ofPieces (Piece.value_brace first) _

/-- The name of a value that is written with plain characters. -/
theorem exists_inert_of_plain {v : Json} {cs : List Char}
    (htokens : v.canonical.tokens = [.word cs]) (hne : cs ≠ []) (hcs : ∀ c ∈ cs, IsPlain c)
    (hvalue : (ofScalar v).value = .unknown) :
    ∃ cs, ofScalar v = .piece (.name (String.ofList cs)) ∧ Inert cs := by
  have hscalar : ofScalar v = .piece (.name (String.ofList cs)) := by
    rw [ofScalar, Json.toList_text_of_word htokens, normalize_of_plain hne hcs]
  refine ⟨cs, hscalar, inert_of_plain hne hcs ?_⟩
  rwa [hscalar, value] at hvalue

/-- A value that is no text, null or list is read as an inert name. -/
theorem exists_inert {v : Json} (h : v.IsScalar) :
    ∃ cs, ofJson v = .piece (.name (String.ofList cs)) ∧ Inert cs := by
  cases v with
  | bool b =>
    cases b with
    | true =>
      exact exists_inert_of_plain rfl (by decide)
        (fun c hc => isPlain_of_all (by decide +kernel) hc) (value_ofScalar_bool true)
    | false =>
      exact exists_inert_of_plain rfl (by decide)
        (fun c hc => isPlain_of_all (by decide +kernel) hc) (value_ofScalar_bool false)
  | int n =>
    exact exists_inert_of_plain rfl (Text.ofInt_ne_nil n)
      (fun c hc => isPlain_of_mem_numberChars (Text.mem_numberChars_of_mem_ofInt hc))
      (value_ofScalar_int n)
  | double x =>
    exact exists_inert_of_plain rfl x.text_ne_nil
      (fun c hc => isPlain_of_mem_numberChars (x.mem_numberChars_of_mem_text hc))
      (value_ofScalar_double x)
  | object members =>
    obtain ⟨cs, hcs⟩ : ∃ cs, (Json.object members).canonical.text.toList = '\x7b' :: cs := by
      simp [Json.canonical, Json.text, Json.tokens, Json.Token.chars]
    obtain ⟨rest, hrest⟩ := normalize_cons isPlain_brace cs
    have hnormal := normal_normalize ('\x7b' :: cs)
    rw [hrest] at hnormal
    refine ⟨'\x7b' :: rest, ?_, inert_of_brace hnormal⟩
    change ofScalar (.object members) = _
    rw [ofScalar, hcs, hrest]
  | flawed =>
    exact exists_inert_of_plain rfl (by decide)
      (fun c hc => isPlain_of_all (by decide +kernel) hc) (by decide +kernel)
  | null | string | array => exact h.elim

/-! ## Written forms -/

theorem ofItems_eq_map (items : List Json) : ofItems items = items.map ofJson := by
  induction items with
  | nil => rfl
  | cons v rest ih => rw [ofItems, ih, List.map_cons]

theorem itemsToJson_eq_map (ds : List Duration) : itemsToJson ds = ds.map toJson := by
  induction ds with
  | nil => rfl
  | cons d rest ih => rw [itemsToJson, ih, List.map_cons]

theorem itemPieces_eq_flatMap (ds : List Duration) : itemPieces ds = ds.flatMap pieces := by
  induction ds with
  | nil => rfl
  | cons d rest ih => rw [itemPieces, ih, List.flatMap_cons]

theorem lastValue_eq {ds : List Duration} (h : ds ≠ []) : lastValue ds = (ds.getLast h).value := by
  induction ds with
  | nil => exact absurd rfl h
  | cons d ds ih =>
    cases ds with
    | nil => rfl
    | cons d' ds => exact ih (List.cons_ne_nil d' ds)

theorem lastCounted_eq {ds : List Duration} (h : ds ≠ []) :
    lastCounted ds = (ds.getLast h).counted := by
  induction ds with
  | nil => exact absurd rfl h
  | cons d ds ih =>
    cases ds with
    | nil => rfl
    | cons d' ds => exact ih (List.cons_ne_nil d' ds)

/-- A list is written as the list of what its items are written as. -/
theorem reread_sequence {ds : List Duration} (h : ds ≠ []) :
    (sequence ds).reread = .sequence (ds.map reread) := by
  obtain ⟨d, rest, rfl⟩ := List.exists_cons_of_ne_nil h
  rw [reread, toJson, itemsToJson_eq_map, List.map_cons, ofJson, ofItems_eq_map, List.map_map]
  rfl

/--
What is left of a duration that is written and read again. An unknown name that has a comma comes
back as the sum of what stands between its commas.
-/
structure Rereads (d : Duration) : Prop where
  same : (∀ p ∈ d.pieces, ¬ p.HasComma) → d.reread = d
  value : d.reread.value = d.value ∨
    ∃ name, d.counted = [.name name] ∧ ',' ∈ name.toList ∧ d.value = .unknown ∧
      d.reread.value = (classify name).value
  recognized : d.reread.value.recognized = d.value.recognized

namespace Rereads

variable {d : Duration}

theorem of_eq (h : d.reread = d) : Rereads d :=
  ⟨fun _ => h, .inl (by rw [h]), by rw [h]⟩

theorem of_inert {cs : List Char} (h : Inert cs) : Rereads (.piece (.name (String.ofList cs))) := by
  have hreread : (piece (.name (String.ofList cs))).reread = classify (String.ofList cs) := by
    simp only [reread, toJson, ofJson, Piece.text]
  by_cases hcomma : ',' ∈ cs
  · have hunknown : (piece (.name (String.ofList cs))).value = .unknown := by
      rw [Duration.value, h.unknown]
    constructor
    · intro hp
      refine absurd ?_ (hp (.name (String.ofList cs)) (by simp [pieces]))
      simpa [Piece.HasComma, Piece.text] using hcomma
    · exact .inr ⟨_, by rw [counted], by simpa using hcomma, hunknown, by rw [hreread]⟩
    · rw [hreread, h.unknown_pieces, hunknown]
      rfl
  · exact .of_eq (hreread.trans (h.whole hcomma))

theorem sequence {ds : List Duration} (hne : ds ≠ []) (h : ∀ d ∈ ds, Rereads d) :
    Rereads (.sequence ds) := by
  have hne' : ds.map reread ≠ [] := by simpa using hne
  have hlast := h _ (List.getLast_mem hne)
  refine ⟨fun hp => ?_, ?_, ?_⟩
  · rw [reread_sequence hne]
    congr 1
    have hsame : ∀ d ∈ ds, d.reread = d := by
      intro d hd
      refine (h d hd).same fun p hpd => hp p ?_
      rw [pieces, itemPieces_eq_flatMap]
      exact List.mem_flatMap.2 ⟨d, hd, hpd⟩
    exact (List.map_congr_left hsame).trans (List.map_id ds)
  · rw [reread_sequence hne, Duration.value, Duration.value, lastValue_eq hne', lastValue_eq hne,
      List.getLast_map, counted, lastCounted_eq hne]
    exact hlast.value
  · rw [reread_sequence hne, Duration.value, Duration.value, lastValue_eq hne', lastValue_eq hne,
      List.getLast_map]
    exact hlast.recognized

end Rereads

/-- **A duration that has been read**, written and read again. -/
theorem rereads_ofJson (v : Json) : Rereads (ofJson v) := by
  have hscalar (v : Json) (h : v.IsScalar) : Rereads (ofJson v) := by
    obtain ⟨cs, hcs, hinert⟩ := exists_inert h
    rw [hcs]
    exact .of_inert hinert
  induction v using Json.induct with
  | null => exact .of_eq (by simp only [reread, ofJson, blank, toJson])
  | string s =>
    refine .of_eq ?_
    rw [reread, ofJson]
    exact ofJson_toJson_classify s
  | array items ih =>
    cases items with
    | nil => exact .of_eq (by simp only [reread, ofJson, blank, toJson])
    | cons v rest =>
      rw [ofJson, ofItems_eq_map, ← List.map_cons]
      refine .sequence (by simp) fun d hd => ?_
      obtain ⟨w, hw, rfl⟩ := List.mem_map.1 hd
      exact ih w hw
  | bool b => exact hscalar (.bool b) trivial
  | int n => exact hscalar (.int n) trivial
  | double x => exact hscalar (.double x) trivial
  | object members => exact hscalar (.object members) trivial
  | flawed => exact hscalar .flawed trivial

/-! ## Documents -/

/-- A piece and a sum are written as a text or null. -/
theorem toJson_classify (text : String) :
    (classify text).toJson = .null ∨ ∃ s, (classify text).toJson = .string s := by
  rw [classify_eq]
  rcases piecesOf text with _ | ⟨p, _ | ⟨q, ps⟩⟩
  · exact .inr ⟨_, by rw [ofPieces, toJson]; simp⟩
  · cases p with
    | blank => exact .inl (by rw [ofPieces, toJson])
    | name | product | count => exact .inr ⟨_, by rw [ofPieces, toJson]; simp⟩
  · exact .inr ⟨_, by rw [ofPieces, toJson]; simp⟩

/-- Written no deeper than the document it was read from, and without numbers. -/
structure Written (n : Nat) (d : Duration) : Prop where
  within : d.toJson.Within n
  reread_eq : d.toJson.reread = d.toJson

theorem Written.of_text {d : Duration} (h : d.toJson = .null ∨ ∃ s, d.toJson = .string s)
    (n : Nat) : Written n d := by
  rcases h with h | ⟨s, h⟩
  · exact ⟨h ▸ .null, by rw [h]; rfl⟩
  · exact ⟨h ▸ .string s, by rw [h]; rfl⟩

theorem written_ofJson {v : Json} {n : Nat} (h : v.Within n) : Written n (ofJson v) := by
  have hscalar (v : Json) (h : v.IsScalar) (n : Nat) : Written n (ofJson v) := by
    obtain ⟨cs, hcs, _⟩ := exists_inert h
    rw [hcs]
    exact .of_text (.inr ⟨_, by rw [toJson]; simp⟩) n
  induction h with
  | null => exact .of_text (.inl (by simp only [ofJson, blank, toJson])) _
  | bool b => exact hscalar (.bool b) trivial _
  | int low high => exact hscalar (.int _) trivial _
  | double proper => exact hscalar (.double _) trivial _
  | string s =>
    rw [ofJson]
    exact .of_text (toJson_classify s) _
  | @array n items all ih =>
    cases items with
    | nil => exact .of_text (.inl (by simp only [ofJson, blank, toJson])) _
    | cons v rest =>
      have htoJson : (ofJson (.array (v :: rest))).toJson =
          .array ((v :: rest).map fun w => (ofJson w).toJson) := by
        rw [ofJson, ofItems_eq_map, ← List.map_cons, toJson, itemsToJson_eq_map, List.map_map]
        rfl
      constructor
      · rw [htoJson]
        refine .array fun w hw => ?_
        obtain ⟨w', hw', rfl⟩ := List.mem_map.1 hw
        exact (ih w' hw').within
      · rw [htoJson, Json.reread_array, List.map_map]
        congr 1
        exact List.map_congr_left fun w hw => (ih w hw).reread_eq
  | object all => exact hscalar (.object _) trivial _
  | flawed => exact hscalar .flawed trivial _

theorem eq_of_reader {v : Json} {d : Duration} (h : reader v = .ok d) : d = ofJson v := by
  obtain ⟨w, hw, rfl⟩ := map_eq_ok.1 h
  unfold Reader.document at hw
  split at hw <;> cases hw
  rfl

/-- A written duration is read as the duration that comes back. -/
theorem reader_toJson {n : Nat} {d : Duration} (h : Written n d) :
    reader d.toJson = .ok d.reread := by
  have hsound := h.within.sound_reread
  rw [h.reread_eq] at hsound
  rw [reader, Reader.document, if_pos hsound]
  rfl

end Duration

end MeterCheck
