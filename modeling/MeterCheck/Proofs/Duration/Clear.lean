import MeterCheck.Proofs.Duration.Written

/-!
# What counts in a duration that is read

A text, a list and an object are all written with commas and brackets, so that the written form of
one may look like that of another.

* `Piece.FromDocument`: a piece of a text, or the name that any other value is read as;
* `text_of_counted`: the text of a list ends with the piece that counts, and the brackets after it;
* `Duration.Clear`: what counts is not mistaken for something else;
* `clear_or_of_ofJson`: everything is clear but some objects, and some lists in which a text counts.
-/

namespace MeterCheck

namespace Piece

/-- The text has none of the signs that lists are written with. -/
def IsBare (p : Piece) : Prop := ∀ c ∈ p.text.toList, c ≠ ',' ∧ c ≠ '[' ∧ c ≠ ']'

/-- The text ends as that of an object does. -/
def IsClosed (p : Piece) : Prop := p.text.toList.getLast? = some '\x7d'

instance (p : Piece) : Decidable p.IsBare := List.decidableBAll _ p.text.toList

/-- A piece of a text, or the name that a value which is no text is read as. -/
inductive FromDocument : Piece → Prop where
  | text {p : Piece} (canonical : p.Canonical) : FromDocument p
  | scalar {cs : List Char} (inert : Duration.Inert cs) : FromDocument (.name (String.ofList cs))

variable {p : Piece} {cs : List Char}

theorem FromDocument.classify_text (h : p.FromDocument) (hcomma : ¬ p.HasComma) :
    Duration.classify p.text = .piece p := by
  cases h with
  | text canonical =>
    have hpieces := Duration.piecesOf_text (List.cons_ne_nil p [])
      (List.forall_mem_singleton.2 canonical)
    rw [Duration.ofPieces, Duration.text] at hpieces
    rw [Duration.classify_eq, hpieces, Duration.ofPieces]
  | scalar inert =>
    rw [HasComma, Piece.text, String.toList_ofList] at hcomma
    exact inert.whole hcomma

theorem getLast?_of_append {before : List Char} {c : Char}
    (h : (before ++ cs).getLast? = some c) (hbefore : before.getLast? ≠ some c) :
    cs.getLast? = some c := by
  rw [List.getLast?_append] at h
  cases hlast : cs.getLast? with
  | none =>
    rw [hlast] at h
    exact (hbefore h).elim
  | some d =>
    rw [hlast] at h
    exact h

theorem noteValue?_of_closed (h : cs.getLast? = some '\x7d') :
    noteValue? (String.ofList cs) = none :=
  noteValue?_eq_none (List.mem_of_getLast? h) (by decide) (by decide)

/-- No note value is written with a brace at its end. -/
theorem FromDocument.value_of_closed (h : p.FromDocument) (hclosed : p.IsClosed) :
    p.value = .unknown := by
  unfold IsClosed at hclosed
  cases h with
  | text canonical =>
    cases canonical with
    | blank => cases hclosed
    | name normal comma same =>
      rw [Piece.text, String.toList_ofList] at hclosed
      rw [value, noteValue?_of_closed hclosed]
      rfl
    | @product n base lt normal comma star =>
      have hbase : base.getLast? = some '\x7d' := by
        rw [text_product, show ' ' :: '*' :: ' ' :: base = [' ', '*', ' '] ++ base from rfl,
          ← List.append_assoc] at hclosed
        apply getLast?_of_append hclosed
        simp
      rw [value, multiple?, noteValue?_of_closed hbase]
      rfl
    | @count w unit ne plain =>
      have hunit : unit.getLast? = some '\x7d' := by
        rw [text_count, show ' ' :: unit = [' '] ++ unit from rfl, ← List.append_assoc] at hclosed
        apply getLast?_of_append hclosed
        simp
      rw [value, multiple?, noteValue?_of_closed hunit]
      rfl
  | scalar inert => exact inert.unknown

end Piece

namespace Duration

variable {v : Json} {p : Piece}

def isList : Duration → Bool
  | .sequence _ => true
  | _ => false

/--
What counts is found again: in a list one piece without the signs of lists, or one that ends as an
object does, and elsewhere pieces without a comma.
-/
def Clear : Duration → Prop
  | .piece p => ¬ p.HasComma
  | .sum ps => ∀ p ∈ ps, ¬ p.HasComma
  | .sequence items => ∃ p, lastCounted items = [p] ∧ (p.IsBare ∨ p.IsClosed)

/-! ## Durations that are no lists -/

/-- A text is read as its pieces, and anything else that is no list as one piece. -/
theorem ofJson_cases (h : (ofJson v).isList = false) :
    (∃ s, ofJson v = classify s) ∨
      ∃ cs, ofJson v = .piece (.name (String.ofList cs)) ∧ Inert cs := by
  cases v with
  | null => exact .inl ⟨"", by rw [ofJson]; rfl⟩
  | string s => exact .inl ⟨s, by rw [ofJson]⟩
  | array items =>
    cases items with
    | nil => exact .inl ⟨"", by rw [ofJson]; rfl⟩
    | cons v rest =>
      rw [ofJson] at h
      cases h
  | bool b => exact .inr (exists_inert (v := .bool b) trivial)
  | int n => exact .inr (exists_inert (v := .int n) trivial)
  | double x => exact .inr (exists_inert (v := .double x) trivial)
  | object members => exact .inr (exists_inert (v := .object members) trivial)
  | flawed => exact .inr (exists_inert (v := .flawed) trivial)

theorem isList_classify (s : String) : (classify s).isList = false := by
  rw [classify_eq]
  unfold ofPieces
  split <;> rfl

theorem clear_classify (s : String) : (classify s).Clear := by
  have hpieces : ∀ p ∈ piecesOf s, ¬ p.HasComma :=
    fun p hp => (canonical_of_mem_piecesOf hp).comma_not_mem
  rw [classify_eq]
  unfold ofPieces
  split
  · rename_i p hp
    exact hpieces p (hp ▸ List.mem_singleton_self p)
  · exact hpieces

/-! ## Lists -/

/-- A list has begun, or goes on after an item. -/
def Opens (cs : List Char) : Prop := ∃ b, cs = b ++ ['['] ∨ cs = b ++ [',', ' ']

theorem intercalate_concat (sep : List Char) (ts : List (List Char)) (t : List Char) :
    ∃ before, sep.intercalate (ts ++ [t]) = before ++ t ∧
      (before = [] ∨ ∃ b, before = b ++ sep) := by
  induction ts with
  | nil => exact ⟨[], by simp, .inl rfl⟩
  | cons t' ts ih =>
    obtain ⟨before, hbefore, hends⟩ := ih
    refine ⟨t' ++ sep ++ before, ?_, .inr ?_⟩
    · have hne : ts ++ [t] ≠ [] := by simp
      obtain ⟨u, us, hus⟩ := List.exists_cons_of_ne_nil hne
      rw [List.cons_append, hus, List.intercalate_cons_cons, ← hus, hbefore]
      simp
    · obtain rfl | ⟨b, rfl⟩ := hends
      · exact ⟨t', by simp⟩
      · exact ⟨t' ++ sep ++ b, by simp⟩

theorem itemTexts_eq_map (ds : List Duration) : itemTexts ds = ds.map text := by
  induction ds with
  | nil => rfl
  | cons d ds ih => rw [itemTexts, ih, List.map_cons]

/-- The text of a list ends with that of its last item. -/
theorem text_sequence_concat (ds : List Duration) (d : Duration) : ∃ before, Opens before ∧
    (sequence (ds ++ [d])).text.toList = before ++ d.text.toList ++ [']'] := by
  obtain ⟨before, hbefore, hends⟩ := intercalate_concat [',', ' ']
    (ds.map fun d => d.text.toList) d.text.toList
  have hitems : (", ".intercalate (itemTexts (ds ++ [d]))).toList = before ++ d.text.toList := by
    rw [← hbefore, String.toList_intercalate, itemTexts_eq_map, List.map_map, List.map_append]
    rfl
  refine ⟨'[' :: before, ?_, ?_⟩
  · obtain rfl | ⟨b, rfl⟩ := hends
    · exact ⟨[], .inl rfl⟩
    · exact ⟨'[' :: b, .inr rfl⟩
  · rw [text, String.toList_append, String.toList_append, hitems]
    rfl

theorem counted_sequence_concat (ds : List Duration) (d : Duration) :
    lastCounted (ds ++ [d]) = d.counted := by
  rw [lastCounted_eq (by simp), List.getLast_append_singleton]

theorem value_sequence_concat (ds : List Duration) (d : Duration) :
    (sequence (ds ++ [d])).value = d.value := by
  rw [value, lastValue_eq (by simp), List.getLast_append_singleton]

/-- The items of a list that is read are what its parts are read as. -/
theorem ofJson_array_concat (before : List Json) (w : Json) :
    ofJson (.array (before ++ [w])) = .sequence (before.map ofJson ++ [ofJson w]) := by
  have hitems : before.map ofJson ++ [ofJson w] = (before ++ [w]).map ofJson := by simp
  obtain ⟨v, rest, hrest⟩ := List.exists_cons_of_ne_nil (List.append_ne_nil_of_right_ne_nil before
    (List.cons_ne_nil w []))
  rw [hitems, hrest, ofJson, ofItems_eq_map, List.map_cons]

/-- Outside of lists only a piece is counted as one. -/
theorem eq_piece_of_counted (h : (ofJson v).isList = false) (hcounted : (ofJson v).counted = [p]) :
    ofJson v = .piece p ∧ p.FromDocument := by
  obtain ⟨s, hs⟩ | ⟨cs, hcs, hinert⟩ := ofJson_cases h
  · have hpieces : piecesOf s = [p] := by
      rw [hs, classify_eq] at hcounted
      unfold ofPieces at hcounted
      split at hcounted
      · rename_i q hq
        rw [counted] at hcounted
        rw [hq, hcounted]
      · rw [counted] at hcounted
        exact hcounted
    have hmem : p ∈ piecesOf s := hpieces ▸ List.mem_singleton_self p
    refine ⟨?_, .text (canonical_of_mem_piecesOf hmem)⟩
    rw [hs, classify_eq, hpieces, ofPieces]
  · rw [hcs, counted, List.cons.injEq] at hcounted
    obtain ⟨rfl, -⟩ := hcounted
    exact ⟨hcs, .scalar hinert⟩

/--
What is known of a duration in which one piece counts, by induction on the document: its text ends
with that of the piece and the brackets that close the lists around it.
-/
theorem text_of_counted (hcounted : (ofJson v).counted = [p]) :
    p.FromDocument ∧ (ofJson v).value = p.value ∧
      ∃ before n, (ofJson v).text.toList = before ++ p.text.toList ++ List.replicate n ']' ∧
        ((ofJson v).isList = false ∧ before = [] ∨ Opens before) := by
  have hpiece {v : Json} (h : (ofJson v).isList = false) (hcounted : (ofJson v).counted = [p]) :
      p.FromDocument ∧ (ofJson v).value = p.value ∧
        ∃ before n, (ofJson v).text.toList = before ++ p.text.toList ++ List.replicate n ']' ∧
          ((ofJson v).isList = false ∧ before = [] ∨ Opens before) := by
    obtain ⟨hv, hp⟩ := eq_piece_of_counted h hcounted
    rw [hv]
    exact ⟨hp, rfl, [], 0, by simp [text], .inl ⟨rfl, rfl⟩⟩
  induction v using Json.induct with
  | null => exact hpiece rfl hcounted
  | bool b => exact hpiece rfl hcounted
  | int n => exact hpiece rfl hcounted
  | double x => exact hpiece rfl hcounted
  | string s =>
    apply hpiece _ hcounted
    rw [ofJson]
    exact isList_classify s
  | object members => exact hpiece rfl hcounted
  | flawed => exact hpiece rfl hcounted
  | array items ih =>
    obtain rfl | ⟨parts, w, rfl⟩ := List.eq_nil_or_concat' items
    · exact hpiece rfl hcounted
    · rw [ofJson_array_concat, counted, counted_sequence_concat] at hcounted
      obtain ⟨hp, hvalue, before, n, htext, hbefore⟩ :=
        ih w (List.mem_append_right _ List.mem_cons_self) hcounted
      obtain ⟨opening, hopens, hlist⟩ := text_sequence_concat (parts.map ofJson) (ofJson w)
      rw [ofJson_array_concat]
      refine ⟨hp, (value_sequence_concat _ _).trans hvalue, opening ++ before, n + 1, ?_, .inr ?_⟩
      · rw [hlist, htext, List.replicate_succ']
        simp only [List.append_assoc]
      · obtain ⟨-, rfl⟩ | ⟨b, hb⟩ := hbefore
        · rw [List.append_nil]
          exact hopens
        · refine ⟨opening ++ b, hb.imp ?_ ?_⟩
          · intro h
            rw [h, List.append_assoc]
          · intro h
            rw [h, List.append_assoc]

/-! ## What is clear -/

theorem isPlain_close : IsPlain '\x7d' :=
  @isPlain_of_all ['\x7d'] (by decide +kernel) _ List.mem_cons_self

/-- A name of plain characters, none of which is a bracket. -/
theorem bare_of_word {cs : List Char} (htokens : v.canonical.tokens = [.word cs]) (hne : cs ≠ [])
    (hplain : ∀ c ∈ cs, IsPlain c) (hbrackets : ∀ c ∈ cs, c ≠ '[' ∧ c ≠ ']') :
    ∃ p, ofScalar v = .piece p ∧ p.IsBare := by
  refine ⟨.name (String.ofList cs), ?_, ?_⟩
  · rw [ofScalar, Json.toList_text_of_word htokens, normalize_of_plain hne hplain]
  · intro c hc
    rw [Piece.text, String.toList_ofList] at hc
    exact ⟨(hplain c hc).ne_comma, hbrackets c hc⟩

theorem ne_bracket_of_all {cs : List Char} (hall : (cs.all fun c => c != '[' && c != ']') = true) :
    ∀ c ∈ cs, c ≠ '[' ∧ c ≠ ']' := by
  intro c hc
  simpa using List.all_eq_true.1 hall c hc

theorem bare_of_number {cs : List Char} (htokens : v.canonical.tokens = [.word cs]) (hne : cs ≠ [])
    (hnumber : ∀ c ∈ cs, c ∈ Text.numberChars) : ∃ p, ofScalar v = .piece p ∧ p.IsBare := by
  have hbrackets : ∀ c ∈ Text.numberChars, c ≠ '[' ∧ c ≠ ']' :=
    ne_bracket_of_all (by decide +kernel)
  exact bare_of_word htokens hne (fun c hc => isPlain_of_mem_numberChars (hnumber c hc))
    fun c hc => hbrackets c (hnumber c hc)

/-- A number and a truth value are read as a name without signs. -/
theorem bare_of_scalar (h : v.IsScalar) (hobject : ∀ members, v ≠ .object members) :
    ∃ p, ofJson v = .piece p ∧ p.IsBare := by
  cases v with
  | bool b =>
    cases b with
    | true =>
      exact bare_of_word (v := .bool true) rfl (by decide)
        (fun c hc => isPlain_of_all (by decide +kernel) hc) (ne_bracket_of_all (by decide))
    | false =>
      exact bare_of_word (v := .bool false) rfl (by decide)
        (fun c hc => isPlain_of_all (by decide +kernel) hc) (ne_bracket_of_all (by decide))
  | int n =>
    exact bare_of_number (v := .int n) rfl (Text.ofInt_ne_nil n)
      fun c hc => Text.mem_numberChars_of_mem_ofInt hc
  | double x =>
    exact bare_of_number (v := .double x) rfl x.text_ne_nil
      fun c hc => x.mem_numberChars_of_mem_text hc
  | flawed =>
    exact bare_of_word (v := .flawed) rfl (by decide)
      (fun c hc => isPlain_of_all (by decide +kernel) hc) (ne_bracket_of_all (by decide))
  | object members => exact (hobject members rfl).elim
  | null | string | array => exact h.elim

/-- An object is read as a name that ends with a brace. -/
theorem closed_of_object (members : List (String × Json)) :
    ∃ p, ofJson (.object members) = .piece p ∧ p.IsClosed := by
  obtain ⟨cs, hcs⟩ : ∃ cs, (Json.object members).canonical.text.toList =
      ('\x7b' :: cs) ++ ['\x7d'] := by
    simp [Json.canonical, Json.text, Json.tokens, Json.Token.chars]
  have hend : (Json.object members).canonical.text.toList.getLast? = some '\x7d' := by
    rw [hcs, List.getLast?_concat]
  refine ⟨_, rfl, ?_⟩
  rw [Piece.IsClosed, Piece.text, String.toList_ofList]
  exact getLast?_normalize hend isPlain_close.not_blank isPlain_close.stable

theorem signs_of_scalar (h : v.IsScalar) :
    ∃ p, ofJson v = .piece p ∧ (p.IsBare ∨ p.IsClosed) := by
  by_cases hobject : ∃ members, v = .object members
  · obtain ⟨members, rfl⟩ := hobject
    obtain ⟨p, hp, hclosed⟩ := closed_of_object members
    exact ⟨p, hp, .inr hclosed⟩
  · obtain ⟨p, hp, hbare⟩ := bare_of_scalar h (not_exists.1 hobject)
    exact ⟨p, hp, .inl hbare⟩

/-- A list in which a text counts. -/
inductive EndsInText : Duration → Prop where
  | text (ds : List Duration) (s : String) : EndsInText (.sequence (ds ++ [classify s]))
  | list (ds : List Duration) {d : Duration} (last : EndsInText d) :
    EndsInText (.sequence (ds ++ [d]))

theorem clear_blank : blank.Clear := by
  unfold blank Clear
  decide

theorem bare_blank : Piece.blank.IsBare := by
  intro c hc
  cases hc

/-- By induction on the document: one piece counts and has its signs, or a text does. -/
theorem signs_or_of_ofJson (v : Json) :
    (∃ p, (ofJson v).counted = [p] ∧ (p.IsBare ∨ p.IsClosed)) ∨ (∃ s, v = .string s) ∨
      (ofJson v).EndsInText := by
  have hblank : ∃ p, blank.counted = [p] ∧ (p.IsBare ∨ p.IsClosed) :=
    ⟨.blank, by rw [blank, counted], .inl bare_blank⟩
  have hscalar {v : Json} (h : v.IsScalar) :
      ∃ p, (ofJson v).counted = [p] ∧ (p.IsBare ∨ p.IsClosed) := by
    obtain ⟨p, hp, hsigns⟩ := signs_of_scalar h
    exact ⟨p, by rw [hp, counted], hsigns⟩
  induction v using Json.induct with
  | null => exact .inl hblank
  | bool b => exact .inl (hscalar (v := .bool b) trivial)
  | int n => exact .inl (hscalar (v := .int n) trivial)
  | double x => exact .inl (hscalar (v := .double x) trivial)
  | string s => exact .inr (.inl ⟨s, rfl⟩)
  | object members => exact .inl (hscalar (v := .object members) trivial)
  | flawed => exact .inl (hscalar (v := .flawed) trivial)
  | array items ih =>
    obtain rfl | ⟨before, w, rfl⟩ := List.eq_nil_or_concat' items
    · exact .inl hblank
    · rw [ofJson_array_concat]
      obtain ⟨p, hcounted, hsigns⟩ | ⟨s, rfl⟩ | hends :=
        ih w (List.mem_append_right _ List.mem_cons_self)
      · left
        refine ⟨p, ?_, hsigns⟩
        rw [counted, counted_sequence_concat, hcounted]
      · rw [ofJson]
        exact .inr (.inr (.text _ s))
      · exact .inr (.inr (.list _ hends))

/-- Of what is read only an object, and a list in which a text counts, need not be clear. -/
theorem clear_or_of_ofJson (v : Json) : (ofJson v).Clear ∨ (∃ members, v = .object members) ∨
    (ofJson v).EndsInText := by
  have hscalar {v : Json} (h : v.IsScalar) (hobject : ∀ members, v ≠ .object members) :
      (ofJson v).Clear := by
    obtain ⟨p, hp, hbare⟩ := bare_of_scalar h hobject
    rw [hp]
    intro hcomma
    exact (hbare ',' hcomma).1 rfl
  cases v with
  | null => exact .inl clear_blank
  | bool b => exact .inl (hscalar (v := .bool b) trivial (by simp))
  | int n => exact .inl (hscalar (v := .int n) trivial (by simp))
  | double x => exact .inl (hscalar (v := .double x) trivial (by simp))
  | string s =>
    left
    rw [ofJson]
    exact clear_classify s
  | object members => exact .inr (.inl ⟨members, rfl⟩)
  | flawed => exact .inl (hscalar (v := .flawed) trivial (by simp))
  | array items =>
    cases items with
    | nil => exact .inl clear_blank
    | cons w rest =>
      obtain ⟨p, hcounted, hsigns⟩ | ⟨s, hs⟩ | hends := signs_or_of_ofJson (.array (w :: rest))
      · left
        rw [ofJson, counted] at hcounted
        rw [ofJson]
        exact ⟨p, hcounted, hsigns⟩
      · cases hs
      · exact .inr (.inr hends)

end Duration

end MeterCheck
