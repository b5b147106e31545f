import MeterCheck.Proofs.Duration.Clear

/-!
# The shape of durations that are read

* `Duration.children`, `Node`: a duration as a tree;
* `Regular`: what a node of such a tree is like;
* `children_classify`: the parts of a text with commas are what they are classified as on their own;
* `nodes_regular`: every node of a duration that is read is regular, and lists stand in lists alone.
-/

namespace MeterCheck

namespace Piece

/-- A product and a count keep to one unit, and a name is in normal form. -/
def Regular : Piece → Prop
  | blank => True
  | name n => n ≠ "" ∧ normalize n.toList = n.toList
  | product multiplier base =>
    multiplier < 2 ^ 32 ∧ ',' ∉ base.toList ∧ '*' ∉ base.toList ∧ Text.Trimmed base.toList
  | count number unit =>
    1 ≤ number.value ∧ number.value ≤ 10 ∧ NumberWord.ofText? number.text = some number ∧
      number.text ≠ "?" ∧ unit ≠ "" ∧
      ∀ c ∈ unit.toList, ¬ Text.isBlank c = true ∧ c ≠ ',' ∧ c ≠ '*'

theorem Canonical.regular {p : Piece} (h : p.Canonical) : p.Regular := by
  cases h with
  | blank => trivial
  | @name cs normal comma same =>
    have hne : cs ≠ [] := by
      rintro rfl
      cases same
    refine ⟨mt String.ofList_eq_empty_iff.1 hne, ?_⟩
    rw [String.toList_ofList]
    exact normalize_of_normal normal
  | product lt normal comma star =>
    rw [Regular, String.toList_ofList]
    exact ⟨lt, comma, star, normal.trimmed⟩
  | count w ne plain =>
    have hvalue : 1 ≤ w.value ∧ w.value ≤ 10 := by cases w <;> decide
    have htext : w.text ≠ "?" := by cases w <;> decide
    refine ⟨hvalue.1, hvalue.2, NumberWord.ofText?_text w, htext,
      mt String.ofList_eq_empty_iff.1 ne, ?_⟩
    rw [String.toList_ofList]
    exact fun c hc => ⟨(plain c hc).not_blank, (plain c hc).ne_comma, (plain c hc).ne_star⟩

end Piece

namespace Duration

variable {v : Json} {d : Duration}

/-- The pieces of a sum or the items of a list. -/
def children : Duration → List Duration
  | .piece _ => []
  | .sum ps => ps.map .piece
  | .sequence items => items

/-- What is reached from a duration by going down to children. -/
inductive Node (d : Duration) : Duration → Prop where
  | root : Node d d
  | child {parent c : Duration} (above : Node d parent) (below : c ∈ parent.children) : Node d c

/-- A sum has several pieces, each of which stands alone as well, and a list has items. -/
def Regular : Duration → Prop
  | .piece p => p.Regular
  | .sum ps => 2 ≤ ps.length ∧ ∀ p ∈ ps, ',' ∉ p.text.toList ∧ classify p.text = .piece p
  | .sequence items => items ≠ []

/-- Only the blank duration has an empty text. -/
theorem Regular.text_ne_empty (h : d.Regular) (hblank : d.isBlank = false) : d.text ≠ "" := by
  intro hempty
  have hnil : d.text.toList = [] := by
    rw [hempty]
    rfl
  cases d with
  | piece p =>
    cases p with
    | blank => cases hblank
    | name n => exact h.1 hempty
    | product multiplier base => simp [text, Piece.text] at hnil
    | count number unit => simp [text, Piece.text] at hnil
  | sum ps =>
    obtain ⟨p, q, ps, rfl⟩ : ∃ p q rest, ps = p :: q :: rest := by
      rcases ps with _ | ⟨p, _ | ⟨q, ps⟩⟩
      · exact absurd h.1 (by simp)
      · exact absurd h.1 (by simp)
      · exact ⟨p, q, ps, rfl⟩
    rw [text, String.toList_intercalate] at hnil
    simp [List.intercalate_cons_cons] at hnil
  | sequence items => simp [text] at hnil

/-! ## Texts -/

theorem classify_canonical {p : Piece} (h : p.Canonical) : classify p.text = .piece p := by
  have hpieces : piecesOf (ofPieces [p]).text = [p] :=
    piecesOf_text (List.cons_ne_nil p []) (List.forall_mem_singleton.2 h)
  rw [ofPieces, text] at hpieces
  rw [classify_eq, hpieces, ofPieces]

theorem regular_classify (s : String) : (classify s).Regular := by
  have hcanonical : ∀ p ∈ piecesOf s, p.Canonical := fun _ => canonical_of_mem_piecesOf
  rw [classify_eq]
  rcases hpieces : piecesOf s with _ | ⟨p, _ | ⟨q, ps⟩⟩
  · exact absurd hpieces (piecesOf_ne_nil s)
  · exact (hcanonical p (by simp [hpieces])).regular
  · refine ⟨by simp, fun r hr => ?_⟩
    have hr' := hcanonical r (hpieces ▸ hr)
    exact ⟨hr'.comma_not_mem, classify_canonical hr'⟩

/-- A part between commas, classified as a text of its own, is one piece. -/
theorem classify_part {cs : List Char} (h : ',' ∉ normalize cs) :
    classify (String.ofList cs) = .piece (.ofNormal (normalize cs)) := by
  rw [classify_eq, piecesOf, String.toList_ofList, List.splitOn_eq_singleton h, List.map_singleton,
    normalize_normalize]
  rfl

/-- Classifying a text with commas classifies its parts. -/
theorem children_classify (s : String) : (classify s).children =
    if ',' ∈ normalize s.toList then
      ((normalize s.toList).splitOn ',').map fun part => classify (String.ofList part)
    else [] := by
  have hparts : ∀ part ∈ (normalize s.toList).splitOn ',',
      classify (String.ofList part) = .piece (.ofNormal (normalize part)) := by
    intro part hpart
    apply classify_part
    rw [normalize_of_part (normal_normalize _) (infix_of_mem_splitOn hpart)]
    intro hmem
    exact Text.not_mem_of_mem_splitOn hpart ((Text.trim_isInfix part).subset hmem)
  rw [List.map_congr_left hparts, classify_eq, piecesOf]
  by_cases hcomma : ',' ∈ normalize s.toList
  · obtain ⟨left, right, hs, hleft⟩ := List.eq_append_cons_of_mem hcomma
    obtain ⟨rest, hrest⟩ := splitOn_head right ','
    have hsplit : (normalize s.toList).splitOn ',' =
        left :: right.takeWhile (· != ',') :: rest := by
      rw [hs, List.splitOn_append_cons_self_of_not_mem hleft, hrest]
    rw [if_pos hcomma, hsplit]
    simp only [List.map_cons, ofPieces, children, List.map_map]
    rfl
  · rw [if_neg hcomma, List.splitOn_eq_singleton hcomma]
    rfl

/-! ## Documents -/

/-- The empty text is no name. -/
theorem Inert.ne_nil {cs : List Char} (h : Inert cs) : cs ≠ [] := by
  rintro rfl
  have hblank : classify (String.ofList []) = blank := rfl
  cases hblank.symm.trans (h.whole (by simp))

theorem regular_of_scalar (h : v.IsScalar) : (ofJson v).Regular := by
  obtain ⟨cs, hcs, hinert⟩ := exists_inert h
  have hscalar : ofJson v = ofScalar v := by
    cases v with
    | bool | int | double | object | flawed => rfl
    | null | string | array => exact h.elim
  have hnormal : normalize cs = cs := by
    have hname := hscalar.symm.trans hcs
    rw [ofScalar, piece.injEq, Piece.name.injEq, String.ofList_inj] at hname
    rw [← hname, normalize_normalize]
  rw [hcs]
  refine ⟨mt String.ofList_eq_empty_iff.1 hinert.ne_nil, ?_⟩
  rw [String.toList_ofList, hnormal]

theorem regular_ofJson (v : Json) : (ofJson v).Regular := by
  cases v with
  | null => trivial
  | string s =>
    rw [ofJson]
    exact regular_classify s
  | array items =>
    cases items with
    | nil => trivial
    | cons w rest =>
      rw [ofJson]
      exact List.cons_ne_nil _ _
  | bool b => exact regular_of_scalar (v := .bool b) trivial
  | int n => exact regular_of_scalar (v := .int n) trivial
  | double x => exact regular_of_scalar (v := .double x) trivial
  | object members => exact regular_of_scalar (v := .object members) trivial
  | flawed => exact regular_of_scalar (v := .flawed) trivial

/-! ## Trees -/

/-- What is below a duration that is read: a part of the document, or a piece of a text. -/
def FromPart (d : Duration) : Prop :=
  (∃ v, d = ofJson v) ∨ ∃ s, ∃ p ∈ piecesOf s, d = .piece p

theorem FromPart.regular (h : d.FromPart) : d.Regular := by
  obtain ⟨v, rfl⟩ | ⟨s, p, hp, rfl⟩ := h
  · exact regular_ofJson v
  · exact (canonical_of_mem_piecesOf hp).regular

/-- One step down: what is below anything but a list is one piece. -/
theorem FromPart.child (h : d.FromPart) {c : Duration} (hc : c ∈ d.children) :
    c.FromPart ∧ (d.isList = true ∨ ∃ p, c = .piece p) := by
  obtain ⟨v, rfl⟩ | ⟨s, p, hp, rfl⟩ := h
  · cases hlist : (ofJson v).isList with
    | true =>
      cases v with
      | array items =>
        cases items with
        | nil => cases hlist
        | cons w rest =>
          rw [ofJson, ofItems_eq_map, ← List.map_cons] at hc
          obtain ⟨w', -, rfl⟩ := List.mem_map.1 hc
          exact ⟨.inl ⟨w', rfl⟩, .inl rfl⟩
      | string s =>
        rw [ofJson, isList_classify] at hlist
        cases hlist
      | null | bool | int | double | object | flawed => cases hlist
    | false =>
      obtain ⟨s, hs⟩ | ⟨cs, hcs, -⟩ := ofJson_cases hlist
      · rw [hs, classify_eq] at hc
        unfold ofPieces at hc
        split at hc
        · cases hc
        · obtain ⟨p, hp, rfl⟩ := List.mem_map.1 hc
          exact ⟨.inr ⟨s, p, hp, rfl⟩, .inr ⟨p, rfl⟩⟩
      · rw [hcs] at hc
        cases hc
  · cases hc

theorem fromPart_of_node (v : Json) (h : (ofJson v).Node d) : d.FromPart := by
  induction h with
  | root => exact .inl ⟨v, rfl⟩
  | child above below ih => exact (ih.child below).1

/--
**Every node of a duration that is read is regular.** A name is not empty and in normal form. A
count is a number from one to ten, written as a number word, of a unit without blanks, commas and
asterisks. A product has a base without commas, asterisks and blanks around it. A sum has two pieces
or more, none of which has a comma in its text; they are what the parts between the commas are
classified as. A list has items, and only a list has anything but pieces below it.
-/
theorem nodes_regular (v : Json) :
    (∀ d, (ofJson v).Node d → d.Regular ∧
      ∀ c ∈ d.children, d.isList = true ∨ ∃ p, c = .piece p) ∧
    ∀ s, v = .string s → (ofJson v).children =
      if ',' ∈ normalize s.toList then
        ((normalize s.toList).splitOn ',').map fun part => ofJson (.string (String.ofList part))
      else [] := by
  constructor
  · intro d hd
    have hpart := fromPart_of_node v hd
    exact ⟨hpart.regular, fun c hc => (hpart.child hc).2⟩
  · rintro s rfl
    simp only [ofJson]
    exact children_classify s

/-- A sum in a list in a list. -/
theorem nodes_regular_of_nested :
    let v : Json := .array [.int 7, .array [.string "TWO  halves,3 * x*y"]]
    let sum : Duration := .sum [.count .two "halves", .product 3 "x"]
    ofJson v = .sequence [.piece (.name "7"), .sequence [sum]] ∧ (ofJson v).Node sum ∧
      sum.Regular ∧ ∀ c ∈ sum.children, ∃ p, c = .piece p := by
  intro v sum
  have hread : ofJson v = .sequence [.piece (.name "7"), .sequence [sum]] := rfl
  have hnode : (ofJson v).Node sum := by
    rw [hread]
    exact .child (.child .root (List.mem_cons_of_mem _ List.mem_cons_self)) List.mem_cons_self
  obtain ⟨hregular, hbelow⟩ := (nodes_regular v).1 sum hnode
  refine ⟨hread, hnode, hregular, fun c hc => (hbelow c hc).resolve_left ?_⟩
  intro hlist
  cases hlist

end Duration

end MeterCheck
