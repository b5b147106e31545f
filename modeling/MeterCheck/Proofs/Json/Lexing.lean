import MeterCheck.Proofs.Json.Tree
import MeterCheck.Proofs.Binary64.Text
import Mathlib.Tactic.SplitIfs

/-!
# The written form of a document is read token by token

* `Lexes`: tokens that are found again in their own characters;
* `lex_text`: those of every document are.
-/

namespace MeterCheck.Json

variable {m m' : Mode} {c : Char} {cs rest : List Char} {t : Token} {ts ts' : List Token}

/-- What follows does not go on with a word. -/
def Ends (rest : List Char) : Prop := ∀ c ∈ rest.head?, ¬ Mode.isWord c = true

/-- The tokens are read from their characters, whatever ends them. -/
def Lexes (ts : List Token) : Prop :=
  ∀ rest, Ends rest →
    lexFrom .gap (ts.flatMap Token.chars ++ rest) = (lexFrom .gap rest).map (ts ++ ·)

theorem lexFrom_cons (h : m.step c = some (ts, m')) (cs : List Char) :
    lexFrom m (c :: cs) = (lexFrom m' cs).map (ts ++ ·) := by
  rw [lexFrom, h]
  exact (Option.map_eq_bind ..).symm

/-- A character that completes no token only changes the mode. -/
theorem lexFrom_cons_silent (h : m.step c = some ([], m')) (cs : List Char) :
    lexFrom m (c :: cs) = lexFrom m' cs := by
  rw [lexFrom_cons h]
  exact congrFun Option.map_id _

/-! ## Words -/

theorem step_gap_of_isWord (h : Mode.isWord c = true) :
    Mode.step .gap c = some ([], .word [c]) := by
  have hgap : ¬ Mode.isGap c = true := by
    intro hgap
    simp only [Mode.isGap, Bool.or_eq_true, decide_eq_true_eq] at hgap
    rcases hgap with ((rfl | rfl) | rfl) | rfl <;> exact absurd h (by decide)
  have hquote : c ≠ '"' := by
    rintro rfl
    exact absurd h (by decide)
  rw [Mode.step, Mode.start, if_neg hgap, if_neg hquote, if_pos h]

theorem lexFrom_word (h : ∀ c ∈ cs, Mode.isWord c = true) (before rest : List Char) :
    lexFrom (.word before) (cs ++ rest) = lexFrom (.word (cs.reverse ++ before)) rest := by
  induction cs generalizing before with
  | nil => rfl
  | cons c cs ih =>
    obtain ⟨hc, hcs⟩ := List.forall_mem_cons.1 h
    have hstep : Mode.step (.word before) c = some ([], .word (c :: before)) := by
      rw [Mode.step, if_pos hc]
    rw [List.cons_append, lexFrom_cons_silent hstep, ih hcs, List.reverse_cons,
      List.append_assoc, List.singleton_append]

/-- A word is complete as soon as something else follows. -/
theorem lexFrom_word_ends (h : Ends rest) (before : List Char) :
    lexFrom (.word before) rest = (lexFrom .gap rest).map (.word before.reverse :: ·) := by
  cases rest with
  | nil => rfl
  | cons c rest =>
    have hc : ¬ Mode.isWord c = true := h c rfl
    have hstep : Mode.step (.word before) c =
        (Mode.step .gap c).map fun p => (.word before.reverse :: p.1, p.2) := by
      simp only [Mode.step, if_neg hc]
    cases hgap : Mode.step .gap c with
    | none =>
      rw [hgap] at hstep
      rw [lexFrom, hstep, lexFrom, hgap]
      rfl
    | some p =>
      rw [hgap] at hstep
      rw [lexFrom_cons hstep, lexFrom_cons hgap, Option.map_map]
      rfl

/-! ## Texts -/

/-- A character is escaped by one letter, escaped by its number, or stands for itself. -/
theorem escaped_cases (c : Char) :
    (∃ e, Token.escaped c = ['\\', e] ∧ Mode.escape? e = some c ∧ e ≠ 'u') ∨
    (c.toNat < 0x20 ∧ Token.escaped c =
      ['\\', 'u', '0', '0', Nat.digitChar (c.toNat / 16), Nat.digitChar (c.toNat % 16)]) ∨
    (c ≠ '"' ∧ c ≠ '\\' ∧ ¬ c.toNat < 0x20 ∧ Token.escaped c = [c]) := by
  unfold Token.escaped
  split_ifs with hquote hslash hb ht hn hf hr hcontrol
  · exact .inl ⟨'"', rfl, by rw [hquote]; rfl, by decide⟩
  · exact .inl ⟨'\\', rfl, by rw [hslash]; rfl, by decide⟩
  · exact .inl ⟨_, rfl, hb ▸ rfl, by decide⟩
  · exact .inl ⟨_, rfl, ht ▸ rfl, by decide⟩
  · exact .inl ⟨_, rfl, hn ▸ rfl, by decide⟩
  · exact .inl ⟨_, rfl, hf ▸ rfl, by decide⟩
  · exact .inl ⟨_, rfl, hr ▸ rfl, by decide⟩
  · exact .inr (.inl ⟨hcontrol, rfl⟩)
  · exact .inr (.inr ⟨hquote, hslash, hcontrol, rfl⟩)

theorem hexDigit?_digitChar : ∀ d < 16, Mode.hexDigit? (Nat.digitChar d) = some d := by
  decide

/-- The part of a text that the written form of a character is read as. -/
def Piece.written (c : Char) : Piece :=
  if (Token.escaped c).length = 6 then .unit c.toNat else .char c

theorem lexFrom_escaped (before : List Piece) (c : Char) (rest : List Char) :
    lexFrom (.text before) (Token.escaped c ++ rest) =
      lexFrom (.text (Piece.written c :: before)) rest := by
  have hopen : Mode.step (.text before) '\\' = some ([], .escape before) := rfl
  rcases escaped_cases c with ⟨e, hc, he, hu⟩ | ⟨hcontrol, hc⟩ | ⟨hquote, hslash, hcontrol, hc⟩
  · have hclose : Mode.step (.escape before) e = some ([], .text (.char c :: before)) := by
      rw [Mode.step, if_neg hu, he]
      rfl
    rw [Piece.written, hc, List.cons_append, lexFrom_cons_silent hopen, List.singleton_append,
      lexFrom_cons_silent hclose]
    rfl
  · have hunit : Mode.step (.escape before) 'u' = some ([], .unit before 3 0) := rfl
    have hfirst : Mode.step (.unit before 3 0) '0' = some ([], .unit before 2 0) := rfl
    have hsecond : Mode.step (.unit before 2 0) '0' = some ([], .unit before 1 0) := rfl
    have hthird : Mode.step (.unit before 1 0) (Nat.digitChar (c.toNat / 16)) =
        some ([], .unit before 0 (c.toNat / 16)) := by
      rw [Mode.step, hexDigit?_digitChar _ (by omega)]
      simp
    have hfourth : Mode.step (.unit before 0 (c.toNat / 16)) (Nat.digitChar (c.toNat % 16)) =
        some ([], .text (.unit c.toNat :: before)) := by
      rw [Mode.step, hexDigit?_digitChar _ (by omega)]
      simp [Nat.div_add_mod]
    rw [Piece.written, hc]
    simp only [List.cons_append, List.nil_append]
    rw [lexFrom_cons_silent hopen, lexFrom_cons_silent hunit, lexFrom_cons_silent hfirst,
      lexFrom_cons_silent hsecond, lexFrom_cons_silent hthird, lexFrom_cons_silent hfourth]
    rfl
  · have hchar : Mode.step (.text before) c = some ([], .text (.char c :: before)) := by
      rw [Mode.step, if_neg hquote, if_neg hslash, if_neg hcontrol]
    rw [Piece.written, hc, List.singleton_append, lexFrom_cons_silent hchar]
    rfl

theorem lexFrom_text (before : List Piece) (cs rest : List Char) :
    lexFrom (.text before) (cs.flatMap Token.escaped ++ rest) =
      lexFrom (.text ((cs.map Piece.written).reverse ++ before)) rest := by
  induction cs generalizing before with
  | nil => rfl
  | cons c cs ih =>
    rw [List.flatMap_cons, List.append_assoc, lexFrom_escaped, ih, List.map_cons,
      List.reverse_cons, List.append_assoc, List.singleton_append]

/-- A unit that is no half of a surrogate pair is a character of its own. -/
theorem Piece.join_unit {n : Nat} (hhigh : ¬ isHigh n = true) (hlow : ¬ isLow n = true)
    (ps : List Piece) : join (.unit n :: ps) = (join ps).map (Char.ofNat n :: ·) := by
  rcases ps with _ | ⟨c | l, ps⟩ <;> simp [join, hhigh, hlow]

theorem Piece.join_written (cs : List Char) : join (cs.map written) = some cs := by
  induction cs with
  | nil => rfl
  | cons c cs ih =>
    rw [List.map_cons]
    by_cases hsix : (Token.escaped c).length = 6
    · have hunit : written c = .unit c.toNat := if_pos hsix
      have hcontrol : c.toNat < 0x20 := by
        rcases escaped_cases c with ⟨e, hc, -⟩ | ⟨hcontrol, -⟩ | ⟨-, -, -, hc⟩
        · rw [hc] at hsix
          cases hsix
        · exact hcontrol
        · rw [hc] at hsix
          cases hsix
      have hhigh : ¬ isHigh c.toNat = true := by
        simp only [isHigh, Bool.and_eq_true, decide_eq_true_eq]
        omega
      have hlow : ¬ isLow c.toNat = true := by
        simp only [isLow, Bool.and_eq_true, decide_eq_true_eq]
        omega
      rw [hunit, join_unit hhigh hlow, ih, Char.ofNat_toNat]
      rfl
    · have hchar : written c = .char c := if_neg hsix
      rw [hchar, join, ih]
      rfl

/-! ## Token lists -/

/-- No word; a text is present. -/
def Token.IsClosed : Token → Prop
  | .word _ => False
  | .string s => s.isSome
  | _ => True

theorem lexFrom_punctuation (h : Mode.step .gap c = some ([t], .gap)) (rest : List Char) :
    lexFrom .gap (c :: rest) = (lexFrom .gap rest).map (t :: ·) :=
  lexFrom_cons h rest

theorem lexFrom_chars (h : t.IsClosed) (rest : List Char) :
    lexFrom .gap (t.chars ++ rest) = (lexFrom .gap rest).map (t :: ·) := by
  cases t with
  | word cs => exact h.elim
  | string s =>
    obtain ⟨s, rfl⟩ := Option.isSome_iff_exists.1 h
    have hopen : Mode.step .gap '"' = some ([], .text []) := rfl
    have hclose : Mode.step (.text (s.toList.map Piece.written).reverse) '"' =
        some ([.string (some s)], .gap) := by
      rw [Mode.step, if_pos rfl, List.reverse_reverse, Piece.join_written]
      simp
    simp only [Token.chars, Option.getD_some, List.cons_append, List.append_assoc,
      List.nil_append]
    rw [lexFrom_cons_silent hopen, lexFrom_text, List.append_nil, lexFrom_cons hclose]
    rfl
  | openArray | closeArray | openObject | closeObject | colon | comma =>
    exact lexFrom_punctuation rfl rest

theorem ends_chars (h : t.IsClosed) (rest : List Char) : Ends (t.chars ++ rest) := by
  cases t with
  | word cs => exact h.elim
  | string s | openArray | closeArray | openObject | closeObject | colon | comma =>
    rintro _ ⟨⟩
    decide

theorem Lexes.nil : Lexes [] := fun _ _ => (congrFun Option.map_id _).symm

theorem Lexes.word (hne : cs ≠ []) (h : ∀ c ∈ cs, Mode.isWord c = true) : Lexes [.word cs] := by
  intro rest hrest
  obtain ⟨c, cs, rfl⟩ := List.exists_cons_of_ne_nil hne
  obtain ⟨hc, hcs⟩ := List.forall_mem_cons.1 h
  rw [List.flatMap_singleton, Token.chars, List.cons_append,
    lexFrom_cons_silent (step_gap_of_isWord hc), lexFrom_word hcs, lexFrom_word_ends hrest]
  simp

theorem Lexes.cons (h : t.IsClosed) (hts : Lexes ts) : Lexes (t :: ts) := by
  intro rest hrest
  rw [List.flatMap_cons, List.append_assoc, lexFrom_chars h, hts rest hrest, Option.map_map]
  rfl

/-- A closed token may follow a word. -/
theorem Lexes.append (hts : Lexes ts) (h : t.IsClosed) (hts' : Lexes ts') :
    Lexes (ts ++ t :: ts') := by
  intro rest hrest
  have hends : Ends ((t :: ts').flatMap Token.chars ++ rest) := by
    rw [List.flatMap_cons, List.append_assoc]
    exact ends_chars h _
  rw [List.flatMap_append, List.append_assoc, hts _ hends, (hts'.cons h) rest hrest,
    Option.map_map]
  congr 1
  funext x
  simp

theorem Lexes.intercalate (h : t.IsClosed) {parts : List (List Token)}
    (hparts : ∀ p ∈ parts, Lexes p) : Lexes ([t].intercalate parts) := by
  induction parts with
  | nil => exact Lexes.nil
  | cons p parts ih =>
    obtain ⟨hp, hrest⟩ := List.forall_mem_cons.1 hparts
    cases parts with
    | nil =>
      rw [List.intercalate_singleton]
      exact hp
    | cons q parts =>
      rw [List.intercalate_cons_cons, List.append_assoc]
      exact hp.append h (ih hrest)

/-- Between brackets. -/
theorem Lexes.enclose {start finish : Token} (hstart : start.IsClosed) (hfinish : finish.IsClosed)
    (hts : Lexes ts) : Lexes (start :: ts ++ [finish]) :=
  (hts.append hfinish .nil).cons hstart

/-! ## Documents -/

theorem isWord_of_mem_numberChars (h : c ∈ Text.numberChars) : Mode.isWord c = true := by
  have hall : (Text.numberChars.all Mode.isWord) = true := by decide
  exact List.all_eq_true.1 hall c h

theorem lexes_tokens (v : Json) : Lexes v.tokens := by
  induction v using induct with
  | null | flawed => exact .word (by decide) (List.all_eq_true.1 (by decide))
  | bool b => cases b <;> exact .word (by decide) (List.all_eq_true.1 (by decide))
  | int n =>
    exact .word (Text.ofInt_ne_nil n) fun c hc =>
      isWord_of_mem_numberChars (Text.mem_numberChars_of_mem_ofInt hc)
  | double x =>
    exact .word x.text_ne_nil fun c hc =>
      isWord_of_mem_numberChars (x.mem_numberChars_of_mem_text hc)
  | string s => exact Lexes.nil.cons rfl
  | array items ih =>
    rw [tokens_array]
    refine .enclose trivial trivial (.intercalate (t := .comma) trivial ?_)
    intro p hp
    obtain ⟨v, hv, rfl⟩ := List.mem_map.1 hp
    exact ih v hv
  | object members ih =>
    rw [tokens_object]
    refine .enclose trivial trivial (.intercalate (t := .comma) trivial ?_)
    intro p hp
    obtain ⟨m, hm, rfl⟩ := List.mem_map.1 hp
    exact .cons rfl (.cons trivial (ih m hm))

/-- **A written document is cut into its tokens again.** -/
theorem lex_text (v : Json) : lex v.text.toList = some v.tokens := by
  have h := lexes_tokens v [] (by simp [Ends])
  rw [List.append_nil] at h
  rw [lex, text, String.toList_ofList, h]
  simp [lexFrom, Mode.finish]

end MeterCheck.Json
